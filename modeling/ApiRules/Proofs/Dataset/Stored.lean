import ApiRules.Dataset.Load
import ApiRules.Proofs.Container

/-!
Stored tables. A container gives back its table, and the table loads from it as it loads by itself: loading
does not look at the digest.
-/
namespace ApiRules

namespace Dataset

def withDigest (digest : Option Digest) (d : Dataset) : Dataset := { d with digest }

theorem withDigest_withDigest (digest other : Option Digest) (d : Dataset) :
    (d.withDigest other).withDigest digest = d.withDigest digest := rfl

theorem push_withDigest (digest : Option Digest) (d : Dataset) (r : Record) :
    (d.withDigest digest).push r = (d.push r).withDigest digest := by
  unfold push
  cases r.pattern <;> rfl

/-- The step does the same to datasets that differ in the digest only, and keeps the digest. -/
def IgnoresDigest (step : Dataset → Except LoadError Dataset) : Prop :=
  ∀ digest d, step (d.withDigest digest) = (step d).map (withDigest digest)

theorem IgnoresDigest.foldlM {β : Type} {step : Dataset → β → Except LoadError Dataset}
    (h : ∀ b, IgnoresDigest fun d => step d b) (bs : List β) :
    IgnoresDigest fun d => bs.foldlM step d := by
  induction bs with
  | nil => exact fun _ _ => rfl
  | cons b bs ih =>
    intro digest d
    have hb : step (d.withDigest digest) b = (step d b).map (withDigest digest) := h b digest d
    simp only [List.foldlM_cons, hb]
    cases step d b with
    | error e => rfl
    | ok d => exact ih digest d

theorem ignoresDigest_accept (r : Record) : IgnoresDigest fun d => d.accept r := by
  intro digest d
  change ite _ _ _ = Except.map (withDigest digest) (ite _ _ _)
  rw [apply_ite (Except.map (withDigest digest)), push_withDigest]
  rfl

theorem ignoresDigest_addEntry (source : Source) (e : Table.Entry) :
    IgnoresDigest fun d => addEntry source d e := by
  intro digest d
  simp only [addEntry]
  cases e.records source with
  | error e => rfl
  | ok rs => exact IgnoresDigest.foldlM ignoresDigest_accept rs digest d

theorem ignoresDigest_addGroup (g : Table.Group) : IgnoresDigest fun d => addGroup d g :=
  IgnoresDigest.foldlM (ignoresDigest_addEntry g.source) g.entries

theorem ignoresDigest_declare (constants : List Table.Constant) (t : Table.Typedef) :
    IgnoresDigest fun d => declare constants d t := by
  intro digest d
  change declare constants (d.withDigest digest) t = (declare constants d t).map (withDigest digest)
  unfold declare
  cases t.target with
  | error e => rfl
  | ok method =>
    change ite _ _ _ = Except.map (withDigest digest) (ite _ _ _)
    rw [apply_ite (Except.map (withDigest digest))]
    rfl

/-- A table loads as the same dataset with any digest. -/
theorem ofTable_digest (t : Table) (digest other : Option Digest) :
    ofTable t digest = (ofTable t other).map (withDigest digest) := by
  have hgroups := IgnoresDigest.foldlM ignoresDigest_addGroup t.groups digest (empty.withDigest other)
  have htypedefs := IgnoresDigest.foldlM (ignoresDigest_declare t.constants) t.typedefs digest
  simp only [withDigest_withDigest] at hgroups
  change t.groups.foldlM addGroup (empty.withDigest digest) >>= _ =
    (t.groups.foldlM addGroup (empty.withDigest other) >>= _).map _
  rw [hgroups]
  cases t.groups.foldlM addGroup (empty.withDigest other) with
  | error e => rfl
  | ok d => exact htypedefs d

end Dataset

/-- A container gives back the table it was made of, with the digest of what follows the header. It loads as
what the table loads as, with this digest, or fails with the error of the table. A table whose archive has less
than 2^30 bytes has a container. -/
theorem container_round_trip (t : Table) :
    (∀ b, Container.encode? t = some b →
      let digest := Digest.ofPayload (b.drop Container.headerSize)
      Container.decode b = .ok (t, digest) ∧
        ∀ other, Dataset.ofBytes b = (Dataset.ofTable t other).map fun d => { d with digest := some digest }) ∧
    (Archive.table.archiveSize t < wordCount 30 → ∃ b, Container.encode? t = some b) := by
  have ht := Archive.faithful_table t
  refine ⟨fun b hb => ?_, fun hsize => ?_⟩
  · obtain ⟨payload, hp, rfl⟩ := Option.map_eq_some_iff.1 hb
    have hdecode := Container.decode_container (Archive.Layout.decode?_of_encode? ht hp)
    simp only [List.drop_left' (Container.length_header payload)]
    refine ⟨hdecode, fun other => ?_⟩
    rw [Dataset.ofBytes, hdecode]
    exact Dataset.ofTable_digest t _ other
  · obtain ⟨payload, hp⟩ := Archive.Layout.exists_encode?_eq_some ht hsize
    exact ⟨_, Option.map_eq_some_iff.2 ⟨payload, hp, rfl⟩⟩

/-- Each kind of payload, texts that are empty, short, long and of several scripts, and options with a value and
without one. -/
theorem container_of_all_payloads :
    let t : Table :=
      ⟨[⟨.googleMaven,
          [⟨"android.app.Activity", [⟨.deprecated (some "androidx.activity"), some "core"⟩,
              ⟨.removed (some 30), none⟩, ⟨.minApiLevel 21, some ""⟩, ⟨.maxApiLevel 33, none⟩]⟩,
            ⟨"", []⟩, ⟨"a.*", [⟨.deprecated none, none⟩, ⟨.removed none, some "äöü/→"⟩]⟩]⟩,
        ⟨.sdkLint,
          [⟨"日本語.テキスト", [⟨.restrictedVisibility .hidden, none⟩, ⟨.restrictedVisibility .testOnly, none⟩,
              ⟨.restrictedVisibility (.conditional none), none⟩,
              ⟨.restrictedVisibility (.conditional (some 4294967295)), none⟩,
              ⟨.sinceVersion "1.0.0-beta01", some "12345678"⟩]⟩]⟩],
        [⟨"a.B.c(int)", 0, .int, true, ["a.B.X", "a.B.VERY_LONG_NAME"], .sdkLint, none⟩,
          ⟨"a.B.d(long)", 1, .long, false, [], .mavenCentral, some "androidx.lib:lib"⟩,
          ⟨"", 2, .text, false, [""], .googleMaven, some "x"⟩],
        [⟨"a.B.X", "1"⟩, ⟨"a.B.VERY_LONG_NAME", "\"a text\""⟩]⟩
    ∃ b, Container.encode? t = some b ∧
      Container.decode b = .ok (t, Digest.ofPayload (b.drop Container.headerSize)) ∧
        ∀ other, Dataset.ofBytes b = (Dataset.ofTable t other).map fun d =>
          { d with digest := some (Digest.ofPayload (b.drop Container.headerSize)) } := by
  intro t
  have hsize : Archive.table.archiveSize t < wordCount 30 := by decide +kernel
  obtain ⟨b, hb⟩ := (container_round_trip t).2 hsize
  exact ⟨b, hb, (container_round_trip t).1 b hb⟩

end ApiRules
