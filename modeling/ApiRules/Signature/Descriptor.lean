import ApiRules.Signature.TypeName

/-!
Type descriptors of the Java virtual machine: a letter for a primitive type, `Lname;` for a class,
and a `[` in front for each array dimension.
-/
namespace ApiRules.Descriptor

/-- The primitive type with this letter. -/
def primitive? : Char → Option Owner
  | 'B' => some (.ofName "byte")
  | 'C' => some (.ofName "char")
  | 'D' => some (.ofName "double")
  | 'F' => some (.ofName "float")
  | 'I' => some (.ofName "int")
  | 'J' => some (.ofName "long")
  | 'S' => some (.ofName "short")
  | 'Z' => some (.ofName "boolean")
  | _ => none

/-- A descriptor without dimensions at the front of a text, and the rest of the text. -/
def base? : List Char → Option (Owner × List Char)
  | [] => none
  | 'L' :: cs => do
    let (name, rest) ← Text.cut? ';' cs
    let owner ← Owner.ofChars? name
    return (owner, rest)
  | c :: cs => (primitive? c).map (·, cs)

/-- A descriptor at the front of a text, and the rest of the text. -/
def type? : List Char → Option (TypeName × List Char)
  | '[' :: cs => (type? cs).map fun (t, rest) => (⟨t.base, t.dimensions + 1⟩, rest)
  | cs => (base? cs).map fun (owner, rest) => (⟨owner, 0⟩, rest)

theorem length_cut? {sep : Char} {cs l r : List Char} (h : Text.cut? sep cs = some (l, r)) :
    r.length < cs.length := by
  induction cs generalizing l with
  | nil => simp [Text.cut?] at h
  | cons c cs ih =>
    simp only [Text.cut?] at h
    split at h
    · simp_all
    · obtain ⟨⟨l', r'⟩, h', he⟩ := Option.map_eq_some_iff.1 h
      obtain ⟨rfl, rfl⟩ := Prod.mk.inj he
      exact Nat.lt_succ_of_lt (ih h')

theorem length_base? {cs rest : List Char} {o : Owner} (h : base? cs = some (o, rest)) :
    rest.length < cs.length := by
  unfold base? at h
  split at h
  · simp at h
  · rename_i cs
    simp only [Option.bind_eq_bind, Option.bind_eq_some_iff] at h
    obtain ⟨⟨name, r⟩, hc, o', -, he⟩ := h
    simp only [Option.pure_def, Option.some.injEq, Prod.mk.injEq] at he
    have := length_cut? hc
    simp only [List.length_cons, ← he.2]
    omega
  · obtain ⟨o', -, he⟩ := Option.map_eq_some_iff.1 h
    simp_all

theorem length_type? {cs rest : List Char} {t : TypeName} (h : type? cs = some (t, rest)) :
    rest.length < cs.length := by
  fun_induction type? cs generalizing t with
  | case1 cs ih =>
    obtain ⟨⟨t', r⟩, h', he⟩ := Option.map_eq_some_iff.1 h
    obtain ⟨rfl, rfl⟩ := Prod.mk.inj he
    exact Nat.lt_succ_of_lt (ih h')
  | case2 cs =>
    obtain ⟨⟨o, r⟩, h', he⟩ := Option.map_eq_some_iff.1 h
    obtain ⟨rfl, rfl⟩ := Prod.mk.inj he
    exact length_base? h'

/-- Descriptors one after another. -/
def types? (cs : List Char) : Option (List TypeName) :=
  if cs = [] then some []
  else match _h : type? cs with
    | none => none
    | some (t, rest) => (types? rest).map (t :: ·)
termination_by cs.length
decreasing_by exact length_type? ‹_›

/-- The descriptor of a result: nothing, or one type. -/
def isResult (cs : List Char) : Bool :=
  cs == ['V'] || (type? cs).any fun (_, rest) => rest.isEmpty

/-- The parameters of a method descriptor, given what stands in its parentheses and after them. -/
def params (inner result : List Char) : Except SignatureError (List TypeName) :=
  if isResult result then
    match types? inner with
    | some ts => .ok ts
    | none => .error (.invalidDescriptor (String.ofList inner))
  else .error (.invalidDescriptor (String.ofList result))

end ApiRules.Descriptor
