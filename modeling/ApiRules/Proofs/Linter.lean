import ApiRules.Linter
import ApiRules.Proofs.Query.Coverage
import ApiRules.Proofs.Results

/-!
Linters that have no dataset. What is wrong with a file disables the linter and leaves it the empty dataset. What
is wrong with a query is found without looking at the dataset, so that linters differ in their answers, but not
in what they refuse to answer.
-/
namespace ApiRules

namespace Dataset

/-- The file has a container of a table that loads as this dataset. -/
def Opens (content : Except FileError Archive.Bytes) (d : Dataset) : Prop :=
  ∃ bytes t digest, content = .ok bytes ∧ Container.decode bytes = .ok (t, digest) ∧
    ofTable t (some digest) = .ok d

/-- Why a file has no dataset: it cannot be read, it is no container, or the table does not load. -/
inductive Fails : Except FileError Archive.Bytes → LoadError → Prop where
  | directory : Fails (.error .isADirectory) (.unreadable .noDevice)
  | file {error : FileError} (h : error ≠ .isADirectory) : Fails (.error error) (.unreadable error)
  | container {bytes : Archive.Bytes} {error : LoadError} (h : Container.decode bytes = .error error) :
    Fails (.ok bytes) error
  | table {bytes : Archive.Bytes} {t : Table} {digest : Digest} {error : LoadError}
    (hd : Container.decode bytes = .ok (t, digest)) (ht : ofTable t (some digest) = .error error) :
    Fails (.ok bytes) error

variable {content : Except FileError Archive.Bytes}

theorem ofBytes_eq_ok {bytes : Archive.Bytes} {d : Dataset} : ofBytes bytes = .ok d ↔
    ∃ t digest, Container.decode bytes = .ok (t, digest) ∧ ofTable t (some digest) = .ok d := by
  rw [ofBytes, bind_eq_ok_iff, Prod.exists]

theorem ofFile_eq_ok {d : Dataset} : ofFile content = .ok d ↔ Opens content d := by
  cases content with
  | error error =>
    constructor
    · intro h
      cases error <;> cases h
    · rintro ⟨bytes, t, digest, h, -⟩
      cases h
  | ok bytes =>
    rw [ofFile, ofBytes_eq_ok]
    constructor
    · rintro ⟨t, digest, h⟩
      exact ⟨bytes, t, digest, rfl, h⟩
    · rintro ⟨bytes', t, digest, hb, h⟩
      obtain rfl := Except.ok.inj hb
      exact ⟨t, digest, h⟩

theorem fails_of_ofFile {error : LoadError} (h : ofFile content = .error error) : Fails content error := by
  cases content with
  | error e =>
    by_cases he : e = .isADirectory
    · obtain rfl := he
      obtain rfl := Except.error.inj h
      exact .directory
    · have hf : ofFile (.error e) = .error (.unreadable e) := by
        cases e <;> first | rfl | exact absurd rfl he
      obtain rfl := Except.error.inj (hf.symm.trans h)
      exact .file he
  | ok bytes =>
    obtain h | ⟨⟨t, digest⟩, hd, h⟩ := bind_eq_error_iff.1 h
    · exact .container h
    · exact .table hd h

end Dataset

namespace Query

theorem level_eq_error {context : Context} {e : QueryError} :
    context.level = .error e ↔ ∃ n, context.apiLevel = some n ∧ n < 1 ∧ e = .invalidApiLevel n := by
  rw [Context.level]
  cases context.apiLevel with
  | none => simp
  | some n =>
    by_cases hn : n < 1
    · simp [hn, eq_comm]
    · simp [hn]

theorem findings_eq_error {d : Dataset} {s : Signature} {context : Context} {e : QueryError} :
    findings d s context = .error e ↔ context.level = .error e := map_eq_error_iff

/-- Why an argument is not looked up: the call is of no method, or it has a supertype that is no owner. The first
of these supertypes counts. -/
inductive Refuses (call : Signature) (supertypes : List String) : QueryError → Prop where
  | notAMethod (h : call.isMethod = false) : Refuses call supertypes (.notAMethod call.text)
  | supertype {before after : List String} {owner : String} {error : SignatureError}
    (h : call.isMethod = true) (hs : supertypes = before ++ owner :: after)
    (hbefore : ∀ o ∈ before, ∃ q, Owner.parse o.toList = .ok q) (ho : Owner.parse owner.toList = .error error) :
    Refuses call supertypes (.invalidSignature error)

theorem onOwner_eq_error {call : Signature} {owner : String} {e : QueryError} :
    onOwner call owner = .error e ↔
      ∃ error, Owner.parse owner.toList = .error error ∧ e = .invalidSignature error := by
  rw [onOwner, Signature.withOwner]
  cases Owner.parse owner.toList with
  | error error =>
    constructor
    · intro h
      exact ⟨error, rfl, (Except.error.inj h).symm⟩
    · rintro ⟨error', h, rfl⟩
      obtain rfl := Except.error.inj h
      rfl
  | ok q => exact ⟨nofun, nofun⟩

theorem exists_onOwner_eq_ok {call : Signature} {owner : String} :
    (∃ s, onOwner call owner = .ok s) ↔ ∃ q, Owner.parse owner.toList = .ok q := by
  rw [onOwner, Signature.withOwner]
  cases Owner.parse owner.toList with
  | error error => exact ⟨nofun, nofun⟩
  | ok q => exact ⟨fun _ => ⟨q, rfl⟩, fun _ => ⟨_, rfl⟩⟩

theorem resolveArgument_eq_error {d : Dataset} {call : Signature} {supertypes : List String} {argument : UInt32}
    {value : Argument} {e : QueryError} :
    resolveArgument d call supertypes argument value = .error e ↔ Refuses call supertypes e := by
  rw [resolveArgument]
  by_cases hcall : call.isMethod = true
  · have howners : supertypes.mapM (onOwner call) = .error e ↔ Refuses call supertypes e := by
      rw [mapM_eq_error_iff]
      constructor
      · rintro ⟨before, owner, after, hs, hbefore, ho⟩
        obtain ⟨error, herror, rfl⟩ := onOwner_eq_error.1 ho
        exact .supertype hcall hs (fun o hm => exists_onOwner_eq_ok.1 (hbefore o hm)) herror
      · intro h
        cases h with
        | notAMethod h => exact absurd hcall (by rw [h]; decide)
        | @supertype before after owner error _ hs hbefore ho =>
          exact ⟨before, owner, after, hs, fun o hm => exists_onOwner_eq_ok.2 (hbefore o hm),
            onOwner_eq_error.2 ⟨error, ho, rfl⟩⟩
    rw [if_pos hcall, ← howners]
    exact map_eq_error_iff
  · rw [if_neg hcall]
    constructor
    · intro h
      obtain rfl := Except.error.inj h
      exact .notAMethod (by simpa using hcall)
    · intro h
      cases h with
      | notAMethod => rfl
      | supertype h => exact absurd h hcall

theorem candidates_empty (s : Signature) : candidates .empty s = [] := by
  have hempty : Dataset.ofTable .empty none = .ok .empty := rfl
  have hhas : ∀ r, ¬Table.empty.Has r := by
    rintro r ⟨g, hg, -⟩
    cases hg
  apply List.eq_nil_iff_forall_not_mem.2
  intro c hc
  have hcovers := (Dataset.represents_of_ofTable hempty).mem_candidates.1 hc
  cases hscope : c.scope with
  | exact =>
    rw [hscope] at hcovers
    exact hhas _ hcovers.1
  | under o =>
    rw [hscope] at hcovers
    exact hhas _ hcovers.1

theorem findings_empty {s : Signature} {context : Context} {fs : List Finding}
    (h : findings .empty s context = .ok fs) : fs = [] := by
  obtain ⟨target, -, rfl⟩ := map_eq_ok_iff.1 h
  simp [findingsAt, candidates_empty, distinctPayloads, bySeverity]

theorem declaration?_empty (argument : UInt32) (methods : List Signature) :
    declaration? .empty argument methods = none :=
  List.findSome?_eq_none_iff.2 fun _ _ => rfl

theorem resolveArgument_empty {call : Signature} {supertypes : List String} {argument : UInt32} {value : Argument}
    {r : Option Resolution} (h : resolveArgument .empty call supertypes argument value = .ok r) : r = none := by
  rw [resolveArgument] at h
  split at h
  · obtain ⟨owners, -, rfl⟩ := map_eq_ok_iff.1 h
    rw [declaration?_empty]
    rfl
  · cases h

end Query

namespace Linter

variable {content : Except FileError Archive.Bytes} {diagnosis : Archive.Diagnosis}

theorem ofFile_of_opens {d : Dataset} (h : Dataset.Opens content d) :
    ofFile content diagnosis = ⟨d, .enabled d.length⟩ := by
  rw [ofFile, Dataset.ofFile_eq_ok.2 h]
  rfl

theorem ofFile_of_not_opens (h : ¬∃ d, Dataset.Opens content d) :
    ∃ error, Dataset.Fails content error ∧
      ofFile content diagnosis = ⟨.empty, .disabled (error.message diagnosis)⟩ := by
  cases hc : Dataset.ofFile content with
  | ok d => exact absurd ⟨d, Dataset.ofFile_eq_ok.1 hc⟩ h
  | error error =>
    refine ⟨error, Dataset.fails_of_ofFile hc, ?_⟩
    rw [ofFile, hc]
    rfl

theorem isEnabled_ofFile : (ofFile content diagnosis).isEnabled = true ↔ ∃ d, Dataset.Opens content d := by
  constructor
  · intro h
    by_contra hno
    obtain ⟨error, -, hl⟩ := @ofFile_of_not_opens content diagnosis hno
    rw [hl] at h
    cases h
  · rintro ⟨d, hd⟩
    rw [ofFile_of_opens hd]
    rfl

/-- A linter is enabled if and only if its file has a dataset, which it then has, and is disabled with the text of
the load error, with what is known of a refused archive, and the empty dataset otherwise. Whatever their datasets and states are, linters refuse the same
queries with the same errors: API levels below one, calls of no method, and then the first supertype that is no
owner. Where it does not refuse, a disabled linter finds nothing. -/
theorem linters_fail_soft :
    (∀ content diagnosis, ((ofFile content diagnosis).isEnabled = true ↔ ∃ d, Dataset.Opens content d) ∧
      (∀ d, Dataset.Opens content d → ofFile content diagnosis = ⟨d, .enabled d.length⟩) ∧
      ((¬∃ d, Dataset.Opens content d) →
        ∃ error, Dataset.Fails content error ∧
          ofFile content diagnosis = ⟨.empty, .disabled (error.message diagnosis)⟩)) ∧
    (∀ s context e,
      (∀ l l' : Linter, l.findings s context = .error e ↔ l'.findings s context = .error e) ∧
      ∀ l : Linter, l.findings s context = .error e ↔
        ∃ n, context.apiLevel = some n ∧ n < 1 ∧ e = .invalidApiLevel n) ∧
    (∀ call supertypes argument value e,
      (∀ l l' : Linter, l.resolveArgument call supertypes argument value = .error e ↔
        l'.resolveArgument call supertypes argument value = .error e) ∧
      ∀ l : Linter, l.resolveArgument call supertypes argument value = .error e ↔
        Query.Refuses call supertypes e) ∧
    ∀ reason,
      (∀ s context fs, (disabled reason).findings s context = .ok fs → fs = []) ∧
      ∀ call supertypes argument value r,
        (disabled reason).resolveArgument call supertypes argument value = .ok r → r = none := by
  refine ⟨fun content diagnosis => ⟨isEnabled_ofFile, fun d => ofFile_of_opens, ofFile_of_not_opens⟩,
    fun s context e => ?_, fun call supertypes argument value e => ?_, fun reason => ⟨?_, ?_⟩⟩
  · have hfindings : ∀ l : Linter, l.findings s context = .error e ↔ context.level = .error e :=
      fun l => Query.findings_eq_error
    exact ⟨fun l l' => (hfindings l).trans (hfindings l').symm,
      fun l => (hfindings l).trans Query.level_eq_error⟩
  · have hresolve : ∀ l : Linter, l.resolveArgument call supertypes argument value = .error e ↔
        Query.Refuses call supertypes e := fun l => Query.resolveArgument_eq_error
    exact ⟨fun l l' => (hresolve l).trans (hresolve l').symm, hresolve⟩
  · intro s context fs h
    exact Query.findings_empty h
  · intro call supertypes argument value r h
    exact Query.resolveArgument_empty h

/-- A file of one byte. A linter whose dataset has a declaration for the called method itself refuses the second
supertype as the disabled one does. -/
theorem linters_refuse_second_supertype :
    let member : Member := .method ⟨['m'], by decide⟩ [⟨.ofName "int", 0⟩]
    let call : Signature := ⟨.ofName "A", some member⟩
    let e : Table.Typedef := ⟨"A#m(int)", 0, .int, false, ["K.ONE"], .sdkLint, none⟩
    let l := ofDataset (.made none [] [(call, e.resolve [⟨"K.ONE", "1"⟩])])
    let refused : QueryError := .invalidSignature (.invalidOwner "b..c")
    ofFile (.ok [0x41]) = disabled "dataset corrupt: truncated header (1 bytes)" ∧
      l.resolveArgument call ["B"] 0 (.integer 1) = .ok (some ⟨.constant ⟨"K", "ONE"⟩, call, .sdkLint, none⟩) ∧
      l.resolveArgument call ["B", " b..c", "#"] 0 (.integer 1) = .error refused ∧
      (disabled "no file").resolveArgument call ["B", " b..c", "#"] 0 (.integer 1) = .error refused := by
  intro member call e l refused
  obtain ⟨hfile, -, hresolve, -⟩ := linters_fail_soft
  have hdecode : Container.decode [0x41] = .error (.corrupt (.truncatedHeader 1)) := rfl
  have hno : ¬∃ d, Dataset.Opens (.ok [0x41]) d := by
    rintro ⟨d, bytes, t, digest, hb, ht, -⟩
    obtain rfl := Except.ok.inj hb
    cases hdecode.symm.trans ht
  obtain ⟨error, hfails, hl⟩ := (hfile (.ok [0x41]) Archive.undiagnosed).2.2 hno
  have herror : error = .corrupt (.truncatedHeader 1) := by
    cases hfails with
    | container h => exact (Except.error.inj (hdecode.symm.trans h)).symm
    | table hd => cases hdecode.symm.trans hd
  have hsupertypes : ["B", " b..c", "#"] = ["B"] ++ " b..c" :: ["#"] := rfl
  have hrefuses : Query.Refuses call ["B", " b..c", "#"] refused :=
    .supertype rfl hsupertypes (List.forall_mem_singleton.2 ⟨.ofName "B", by decide⟩) (by decide)
  obtain ⟨-, hiff⟩ := hresolve call ["B", " b..c", "#"] 0 (.integer 1) refused
  refine ⟨?_, by decide, (hiff l).2 hrefuses, (hiff _).2 hrefuses⟩
  have hmessage : (LoadError.corrupt (.truncatedHeader 1)).message =
      "dataset corrupt: truncated header (1 bytes)" := by decide
  rw [hl, herror, hmessage]
  rfl

end Linter

end ApiRules
