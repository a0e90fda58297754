/-!
Dictionaries: texts by name, in ascending order of the names.
-/
namespace ApiRules

structure Dictionary where
  entries : List (String × String)
  ascending : entries.Pairwise fun a b => a.1 < b.1

namespace Dictionary

def empty : Dictionary := ⟨[], List.Pairwise.nil⟩

/-- Puts an entry in its place; an entry of the same name makes way. -/
def put (name value : String) : List (String × String) → List (String × String)
  | [] => [(name, value)]
  | e :: es =>
    if name < e.1 then (name, value) :: e :: es
    else if e.1 < name then e :: put name value es
    else (name, value) :: es

theorem mem_put {name value : String} {e : String × String} {es : List (String × String)}
    (h : e ∈ put name value es) : e = (name, value) ∨ e ∈ es := by
  induction es with
  | nil => simpa [put] using h
  | cons d ds ih =>
    simp only [put] at h
    split at h
    · simpa using h
    · split at h
      · rcases List.mem_cons.1 h with rfl | h
        · simp
        · rcases ih h with rfl | h <;> simp_all
      · rcases List.mem_cons.1 h with rfl | h <;> simp_all

theorem pairwise_put (name value : String) {es : List (String × String)}
    (h : es.Pairwise fun a b => a.1 < b.1) :
    (put name value es).Pairwise fun a b => a.1 < b.1 := by
  induction es with
  | nil => simp [put]
  | cons d ds ih =>
    obtain ⟨hd, hs⟩ := List.pairwise_cons.1 h
    simp only [put]
    split
    · rename_i hn
      refine List.pairwise_cons.2 ⟨fun e he => ?_, h⟩
      rcases List.mem_cons.1 he with rfl | he
      · exact hn
      · exact String.lt_trans hn (hd e he)
    · split
      · rename_i hn
        refine List.pairwise_cons.2 ⟨fun e he => ?_, ih hs⟩
        rcases mem_put he with rfl | he
        · exact hn
        · exact hd e he
      · rename_i h1 h2
        have he : name = d.1 := String.le_antisymm h2 h1
        exact List.pairwise_cons.2 ⟨fun e h' => he ▸ hd e h', hs⟩

def insert (d : Dictionary) (name value : String) : Dictionary :=
  ⟨put name value d.entries, pairwise_put name value d.ascending⟩

/-- The dictionary of these entries; of several with one name the last counts. -/
def ofList (entries : List (String × String)) : Dictionary :=
  entries.foldl (fun d (name, value) => d.insert name value) empty

def get? (d : Dictionary) (name : String) : Option String := d.entries.lookup name

end Dictionary

end ApiRules
