import ApiRules.Archive.Table
import ApiRules.Proofs.Archive.Layout

/-!
The layout of tables holds every table without loss.
-/
namespace ApiRules.Archive

open Layout

theorem faithful_bool (b : Bool) : bool.Faithful b := faithful_byte (by cases b <;> rfl)

theorem faithful_source (s : Source) : source.Faithful s := faithful_byte (by cases s <;> rfl)

theorem faithful_constantKind (k : ConstantKind) : constantKind.Faithful k :=
  faithful_byte (by cases k <;> rfl)

theorem faithful_visibility (v : Visibility) : visibility.Faithful v := by
  cases v with
  | hidden => exact faithful_tagged rfl (by decide) (faithful_nothing _)
  | testOnly => exact faithful_tagged rfl (by decide) (faithful_nothing _)
  | conditional level =>
    have h := faithful_option (o := level) fun n _ => faithful_word n
    exact faithful_tagged rfl (by decide) (h.map rfl)

theorem faithful_payload (p : Payload) : payload.Faithful p := by
  cases p with
  | deprecated replacement =>
    have h := faithful_option (o := replacement) fun s _ => faithful_text s
    exact faithful_tagged rfl (by decide) (h.map rfl)
  | removed since =>
    have h := faithful_option (o := since) fun n _ => faithful_word n
    exact faithful_tagged rfl (by decide) (h.map rfl)
  | restrictedVisibility v => exact faithful_tagged rfl (by decide) ((faithful_visibility v).map rfl)
  | minApiLevel level => exact faithful_tagged rfl (by decide) ((faithful_word level).map rfl)
  | maxApiLevel level => exact faithful_tagged rfl (by decide) ((faithful_word level).map rfl)
  | sinceVersion version => exact faithful_tagged rfl (by decide) ((faithful_text version).map rfl)

theorem faithful_artifact (artifact : Option String) : (option text).Faithful artifact :=
  faithful_option fun s _ => faithful_text s

theorem faithful_rule (r : Table.Rule) : rule.Faithful r := by
  refine Faithful.map ?_ rfl
  exact (faithful_payload r.payload).pair (faithful_artifact r.artifact)

theorem faithful_entry (e : Table.Entry) : entry.Faithful e := by
  refine Faithful.map ?_ rfl
  exact (faithful_text e.pattern).pair (faithful_vector (by decide) fun r _ => faithful_rule r)

theorem faithful_group (g : Table.Group) : group.Faithful g := by
  refine Faithful.map ?_ rfl
  exact ((faithful_source g.source).pad 3).pair (faithful_vector (by decide) fun e _ => faithful_entry e)

theorem faithful_constant (c : Table.Constant) : constant.Faithful c := by
  refine Faithful.map ?_ rfl
  exact (faithful_text c.name).pair (faithful_text c.value)

theorem faithful_typedef (t : Table.Typedef) : typedef.Faithful t := by
  refine Faithful.map ?_ rfl
  exact (faithful_text t.method).pair <| (faithful_word t.argument).pair <|
    (faithful_constantKind t.kind).pair <| ((faithful_bool t.flag).pad 2).pair <|
    (faithful_vector (by decide) fun s _ => faithful_text s).pair <|
    ((faithful_source t.source).pad 3).pair (faithful_artifact t.artifact)

/-- Every table is read back from its archive. -/
theorem faithful_table (t : Table) : table.Faithful t := by
  refine Faithful.map ?_ rfl
  exact (faithful_vector (by decide) fun g _ => faithful_group g).pair <|
    (faithful_vector (by decide) fun u _ => faithful_typedef u).pair <|
    faithful_vector (by decide) fun c _ => faithful_constant c

end ApiRules.Archive
