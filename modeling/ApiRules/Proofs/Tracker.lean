import ApiRules.Proofs.Archive.Order
import ApiRules.Proofs.Sequences
import ApiRules.Tracker
import Mathlib.Logic.Relation

/-!
Callers that report to one tracker. Their observations are taken one at a time, in any order that keeps each caller's
own. The order makes no difference to what is known in the end, and each library is found once, by the first
observation that points to it.
-/
namespace ApiRules.Tracker

/-- Where a rule that a caller met comes from. -/
structure Observation where
  source : Source
  artifact : Option String
  deriving DecidableEq

/-- The observation is one of this artifact of a library. -/
def Observation.PointsTo (o : Observation) (a : String) : Prop := o.source ≠ .sdkLint ∧ o.artifact = some a

instance (o : Observation) (a : String) : Decidable (o.PointsTo a) := inferInstanceAs (Decidable (_ ∧ _))

theorem Observation.PointsTo.iff_eq {o : Observation} {a : String} (ha : o.PointsTo a) (b : String) :
    o.PointsTo b ↔ b = a := by
  constructor
  · intro hb
    exact Option.some.inj (hb.2.symm.trans ha.2)
  · rintro rfl
    exact ha

theorem library?_eq_some {o : Observation} {a : String} :
    library? o.source o.artifact = some a ↔ o.PointsTo a := by
  obtain ⟨source, artifact⟩ := o
  cases source <;> simp [library?, Observation.PointsTo]

def see (t : Tracker) (o : Observation) : Tracker := t.observe o.source o.artifact

/-- The answer to an observation. -/
def finds (t : Tracker) (o : Observation) : Bool := t.isFresh o.source o.artifact

theorem see_cases (t : Tracker) (o : Observation) :
    (∃ a, o.PointsTo a ∧ a ∉ t.artifacts ∧ t.finds o = true ∧
      t.see o = ⟨insert a t.artifacts, t.events ++ [⟨a, o.source⟩]⟩) ∨
    ((∀ a, o.PointsTo a → a ∈ t.artifacts) ∧ t.finds o = false ∧ t.see o = t) := by
  simp only [← library?_eq_some, finds, isFresh, see, observe]
  cases hl : library? o.source o.artifact with
  | none => exact .inr ⟨nofun, rfl, rfl⟩
  | some a =>
    by_cases ha : a ∈ t.artifacts
    · right
      refine ⟨?_, by simp [ha], by simp [ha]⟩
      rintro b ⟨⟩
      exact ha
    · exact .inl ⟨a, rfl, ha, by simp [ha], by simp [ha]⟩

theorem mem_insert {a b : String} {as : List String} : b ∈ insert a as ↔ b = a ∨ b ∈ as := by
  induction as with
  | nil => simp [insert]
  | cons c cs ih =>
    rw [insert]
    split
    · exact List.mem_cons
    · rw [List.mem_cons, ih, List.mem_cons, or_left_comm]

theorem pairwise_insert {a : String} {as : List String} (h : as.Pairwise (· < ·)) (ha : a ∉ as) :
    (insert a as).Pairwise (· < ·) := by
  induction as with
  | nil => exact List.pairwise_singleton _ a
  | cons c cs ih =>
    obtain ⟨hc, hcs⟩ := List.pairwise_cons.1 h
    rw [List.mem_cons, not_or] at ha
    rw [insert]
    split
    next hac =>
      refine List.pairwise_cons.2 ⟨?_, h⟩
      intro b hb
      rcases List.mem_cons.1 hb with rfl | hb
      · exact hac
      · exact hac.trans (hc b hb)
    next hac =>
      refine List.pairwise_cons.2 ⟨?_, ih hcs ha.2⟩
      intro b hb
      rcases mem_insert.1 hb with rfl | hb
      · exact lt_of_le_of_ne (not_lt.1 hac) (Ne.symm ha.1)
      · exact hc b hb

/-- What a caller asks of the tracker. -/
inductive Request where
  | observation (o : Observation)
  | findings (fs : List Finding)
  | resolution (r : Query.Resolution)

namespace Request

/-- The observations that a request makes, one after another. -/
def observations : Request → List Observation
  | observation o => [o]
  | findings fs => fs.map fun f => ⟨f.source, f.artifact⟩
  | resolution r => [⟨r.source, r.artifact⟩]

/-- The request is served while no other caller is. -/
def serve (t : Tracker) : Request → Tracker
  | observation o => t.observe o.source o.artifact
  | findings fs => t.observeFindings fs
  | resolution r => t.observeResolution r

theorem serve_eq_foldl (t : Tracker) (r : Request) : r.serve t = r.observations.foldl see t := by
  cases r with
  | observation o | resolution r => rfl
  | findings fs =>
    rw [observations, List.foldl_map]
    rfl

end Request

structure Answer where
  observation : Observation
  fresh : Bool
  deriving DecidableEq

/-- The answer says that this artifact was found. -/
def Answer.Finds (c : Answer) (a : String) : Prop := c.fresh = true ∧ c.observation.PointsTo a

instance (c : Answer) (a : String) : Decidable (c.Finds a) := inferInstanceAs (Decidable (_ ∧ _))

/-- Callers at work with one tracker. -/
structure Session where
  tracker : Tracker
  /-- What each caller will still report. -/
  pending : List (List Observation)
  /-- The answers to all callers, the first one first. -/
  answers : List Answer

namespace Session

/-- All that callers with these programs observe. -/
def observations (programs : List (List Request)) : List Observation :=
  programs.flatMap fun rs => rs.flatMap Request.observations

/-- Callers that have all their requests to make, and a tracker that knows nothing. -/
def start (programs : List (List Request)) : Session :=
  ⟨.empty, programs.map fun rs => rs.flatMap Request.observations, []⟩

/-- The next observation of some caller is taken, and no other one before it is answered. -/
inductive Step : Session → Session → Prop
  | take (t : Tracker) (before : List (List Observation)) (o : Observation) (rest : List Observation)
      (after : List (List Observation)) (answers : List Answer) :
      Step ⟨t, before ++ (o :: rest) :: after, answers⟩
        ⟨t.see o, before ++ rest :: after, answers ++ [⟨o, t.finds o⟩]⟩

def Reaches : Session → Session → Prop := Relation.ReflTransGen Step

/-- No caller has anything left to report. -/
def IsDone (s : Session) : Prop := ∀ os ∈ s.pending, os = []

def observed (s : Session) : List Observation := s.answers.map Answer.observation

/-- This is the answer to the first observation that points to the artifact. -/
def FirstAnswer (answers : List Answer) (a : String) (c : Answer) : Prop :=
  ∃ before after, answers = before ++ c :: after ∧ c.observation.PointsTo a ∧
    ∀ d ∈ before, ¬d.observation.PointsTo a

theorem FirstAnswer.concat {answers : List Answer} {a : String} {c : Answer} (h : FirstAnswer answers a c)
    (d : Answer) : FirstAnswer (answers ++ [d]) a c := by
  obtain ⟨before, after, rfl, hc, hbefore⟩ := h
  exact ⟨before, after ++ [d], by rw [List.append_assoc, List.cons_append], hc, hbefore⟩

theorem step_perm {s s' : Session} (h : Step s s') :
    (s'.observed ++ s'.pending.flatten).Perm (s.observed ++ s.pending.flatten) := by
  cases h with
  | take t before o rest after answers =>
    simp only [observed, List.map_append, List.map_cons, List.map_nil, List.flatten_append, List.flatten_cons,
      List.append_assoc, List.cons_append, List.nil_append]
    apply List.Perm.append_left
    exact List.perm_middle.symm

theorem perm_of_reaches {programs : List (List Request)} {s : Session} (h : Reaches (start programs) s) :
    (s.observed ++ s.pending.flatten).Perm (observations programs) := by
  induction h with
  | refl => rfl
  | tail _ hstep ih => exact (step_perm hstep).trans ih

theorem observed_perm_of_isDone {programs : List (List Request)} {s : Session} (h : Reaches (start programs) s)
    (hdone : s.IsDone) : s.observed.Perm (observations programs) := by
  have hnil : s.pending.flatten = [] := List.flatten_eq_nil_iff.2 hdone
  have hp := perm_of_reaches h
  rwa [hnil, List.append_nil] at hp

theorem step_subset {s s' : Session} (h : Step s s') : s.tracker.artifacts ⊆ s'.tracker.artifacts := by
  cases h with
  | take t before o rest after answers =>
    intro a ha
    obtain ⟨b, -, -, -, hsee⟩ | ⟨-, -, hsee⟩ := see_cases t o
    · rw [hsee]
      exact mem_insert.2 (.inr ha)
    · rwa [hsee]

theorem subset_of_reaches {s s' : Session} (h : Reaches s s') : s.tracker.artifacts ⊆ s'.tracker.artifacts := by
  induction h with
  | refl => exact List.Subset.refl _
  | tail _ hstep ih => exact List.Subset.trans ih (step_subset hstep)

/-- Observations that one caller makes while no other one does. -/
theorem exists_reaches_foldl (t : Tracker) (before : List (List Observation)) (os rest : List Observation)
    (after : List (List Observation)) (answers : List Answer) :
    ∃ answers', Reaches ⟨t, before ++ (os ++ rest) :: after, answers⟩
      ⟨os.foldl see t, before ++ rest :: after, answers'⟩ := by
  induction os generalizing t answers with
  | nil => exact ⟨answers, .refl⟩
  | cons o os ih =>
    obtain ⟨answers', h⟩ := ih (t.see o) (answers ++ [⟨o, t.finds o⟩])
    exact ⟨answers', .head (.take t before o (os ++ rest) after answers) h⟩

theorem exists_reaches_isDone (s : Session) : ∃ s', Reaches s s' ∧ s'.IsDone := by
  obtain ⟨t, pending, answers⟩ := s
  -- One caller after another comes to its end; those in `before` have.
  have h : ∀ after before t answers, (∀ os ∈ before, os = []) →
      ∃ s', Reaches ⟨t, before ++ after, answers⟩ s' ∧ s'.IsDone := by
    intro after
    induction after with
    | nil =>
      intro before t answers hb
      refine ⟨_, .refl, ?_⟩
      rwa [IsDone, List.append_nil]
    | cons os after ih =>
      intro before t answers hb
      have hempty : ∀ os' ∈ before ++ [[]], os' = [] := by
        intro os' hos'
        rcases List.mem_append.1 hos' with hos' | hos'
        · exact hb os' hos'
        · exact List.mem_singleton.1 hos'
      obtain ⟨answers', hr⟩ := exists_reaches_foldl t before os [] after answers
      obtain ⟨s', hs, hdone⟩ := ih (before ++ [[]]) (os.foldl see t) answers' hempty
      rw [List.append_nil] at hr
      rw [List.append_assoc] at hs
      exact ⟨s', hr.trans hs, hdone⟩
  exact h pending [] t answers nofun

/-- What holds between any two observations. -/
structure Tracked (s : Session) : Prop where
  ascending : s.tracker.artifacts.Pairwise fun a b => Archive.ofText a < Archive.ofText b
  mem_artifacts_iff : ∀ a, a ∈ s.tracker.artifacts ↔ ∃ o ∈ s.observed, o.PointsTo a
  /-- The first observation is the only one that finds the artifact, and the only one that is reported. -/
  once : ∀ a ∈ s.tracker.artifacts, ∃ c, FirstAnswer s.answers a c ∧ (s.answers.filter fun d => d.Finds a) = [c] ∧
    (s.tracker.events.filter fun e => e.artifact = a).map DependencyEvent.entry =
      [⟨.info, "detected library dependency", [("artifact", a), ("source", c.observation.source.label)]⟩]
  pointsTo_of_fresh : ∀ c ∈ s.answers, c.fresh = true → ∃ a ∈ s.tracker.artifacts, c.observation.PointsTo a
  mem_of_event : ∀ e ∈ s.tracker.events, e.artifact ∈ s.tracker.artifacts

theorem tracked_start (programs : List (List Request)) : (start programs).Tracked where
  ascending := List.Pairwise.nil
  mem_artifacts_iff a := by simp [start, observed, Tracker.empty]
  once := nofun
  pointsTo_of_fresh := nofun
  mem_of_event := nofun

section Tracked

variable {s : Session} {t : Tracker} {pending pending' : List (List Observation)} {answers : List Answer}
  {o : Observation} {a : String}

theorem Tracked.not_pointsTo (h : s.Tracked) (hnew : a ∉ s.tracker.artifacts) :
    ∀ d ∈ s.answers, ¬d.observation.PointsTo a := by
  intro d hd hp
  exact hnew ((h.mem_artifacts_iff a).2 ⟨_, List.mem_map_of_mem hd, hp⟩)

theorem Tracked.filter_answers_eq_nil (h : s.Tracked) (hnew : a ∉ s.tracker.artifacts) :
    (s.answers.filter fun d => d.Finds a) = [] := by
  apply List.filter_eq_nil_iff.2
  intro d hd hf
  exact h.not_pointsTo hnew d hd (of_decide_eq_true hf).2

theorem Tracked.filter_events_eq_nil (h : s.Tracked) (hnew : a ∉ s.tracker.artifacts) :
    (s.tracker.events.filter fun e => e.artifact = a) = [] := by
  apply List.filter_eq_nil_iff.2
  intro e he ha
  exact hnew (of_decide_eq_true ha ▸ h.mem_of_event e he)

theorem exists_observed_concat {fresh : Bool} :
    (∃ o' ∈ observed ⟨t, pending, answers ++ [⟨o, fresh⟩]⟩, o'.PointsTo a) ↔
      (∃ o' ∈ observed ⟨t, pending, answers⟩, o'.PointsTo a) ∨ o.PointsTo a := by
  simp only [observed, List.map_append, List.mem_append, List.map_cons, List.map_nil, List.mem_singleton,
    or_and_right, exists_or, exists_eq_left]

theorem Tracked.found (h : Tracked ⟨t, pending, answers⟩) (ha : o.PointsTo a) (hnew : a ∉ t.artifacts) :
    Tracked ⟨⟨insert a t.artifacts, t.events ++ [⟨a, o.source⟩]⟩, pending', answers ++ [⟨o, true⟩]⟩ where
  ascending := by
    have hasc := h.ascending
    simp only [Archive.ofText_lt_iff] at hasc ⊢
    exact pairwise_insert hasc hnew
  mem_artifacts_iff b := by
    rw [mem_insert, h.mem_artifacts_iff, exists_observed_concat, ha.iff_eq, or_comm]
    rfl
  once b hb := by
    rcases mem_insert.1 hb with rfl | hb
    · refine ⟨⟨o, true⟩, ⟨answers, [], rfl, ha, h.not_pointsTo hnew⟩, ?_, ?_⟩
      · rw [List.filter_append, h.filter_answers_eq_nil hnew]
        simp [Answer.Finds, ha]
      · rw [List.filter_append, h.filter_events_eq_nil hnew]
        simp [DependencyEvent.entry]
    · have hne : b ≠ a := fun he => hnew (he ▸ hb)
      obtain ⟨c, hfirst, hfinds, hevents⟩ := h.once b hb
      refine ⟨c, hfirst.concat _, ?_, ?_⟩
      · rw [List.filter_append, hfinds]
        simp [Answer.Finds, ha.iff_eq, hne]
      · rw [List.filter_append, List.map_append, hevents]
        simp [hne.symm]
  pointsTo_of_fresh c hc hfresh := by
    rcases List.mem_append.1 hc with hc | hc
    · obtain ⟨b, hb, hp⟩ := h.pointsTo_of_fresh c hc hfresh
      exact ⟨b, mem_insert.2 (.inr hb), hp⟩
    · rw [List.mem_singleton.1 hc]
      exact ⟨a, mem_insert.2 (.inl rfl), ha⟩
  mem_of_event e he := by
    rcases List.mem_append.1 he with he | he
    · exact mem_insert.2 (.inr (h.mem_of_event e he))
    · rw [List.mem_singleton.1 he]
      exact mem_insert.2 (.inl rfl)

theorem Tracked.passed (h : Tracked ⟨t, pending, answers⟩) (hknown : ∀ a, o.PointsTo a → a ∈ t.artifacts) :
    Tracked ⟨t, pending', answers ++ [⟨o, false⟩]⟩ where
  ascending := h.ascending
  mem_artifacts_iff a := by
    rw [exists_observed_concat, h.mem_artifacts_iff]
    exact (or_iff_left_of_imp fun ha => (h.mem_artifacts_iff a).1 (hknown a ha)).symm
  once a ha := by
    obtain ⟨c, hfirst, hfinds, hevents⟩ := h.once a ha
    refine ⟨c, hfirst.concat _, ?_, hevents⟩
    rw [List.filter_append, hfinds]
    simp [Answer.Finds]
  pointsTo_of_fresh c hc hfresh := by
    rcases List.mem_append.1 hc with hc | hc
    · exact h.pointsTo_of_fresh c hc hfresh
    · rw [List.mem_singleton.1 hc] at hfresh
      cases hfresh
  mem_of_event := h.mem_of_event

end Tracked

theorem Tracked.step {s s' : Session} (h : s.Tracked) (hstep : Step s s') : s'.Tracked := by
  cases hstep with
  | take t before o rest after answers =>
    obtain ⟨a, ha, hnew, hfinds, hsee⟩ | ⟨hknown, hfinds, hsee⟩ := see_cases t o
    · rw [hfinds, hsee]
      exact h.found ha hnew
    · rw [hfinds, hsee]
      exact h.passed hknown

theorem tracked_of_reaches {programs : List (List Request)} {s : Session} (h : Reaches (start programs) s) :
    s.Tracked := by
  induction h with
  | refl => exact tracked_start programs
  | tail _ hstep ih => exact ih.step hstep

theorem mem_artifacts_of_isDone {programs : List (List Request)} {s : Session} (h : Reaches (start programs) s)
    (hdone : s.IsDone) (a : String) : a ∈ s.tracker.artifacts ↔ ∃ o ∈ observations programs, o.PointsTo a := by
  have hp := observed_perm_of_isDone h hdone
  simp only [(tracked_of_reaches h).mem_artifacts_iff, hp.mem_iff]

theorem artifacts_eq_of_perm {programs programs' : List (List Request)} {s s' : Session}
    (h : Reaches (start programs) s) (hdone : s.IsDone) (h' : Reaches (start programs') s') (hdone' : s'.IsDone)
    (hp : (observations programs).Perm (observations programs')) : s.tracker.artifacts = s'.tracker.artifacts := by
  have hasymm : ∀ a b, Archive.ofText a < Archive.ofText b → ¬Archive.ofText b < Archive.ofText a := by
    simp only [Archive.ofText_lt_iff]
    exact fun a b => lt_asymm
  apply Sequences.eq_of_pairwise_of_mem_iff hasymm (tracked_of_reaches h).ascending (tracked_of_reaches h').ascending
  intro a
  simp only [mem_artifacts_of_isDone h hdone, mem_artifacts_of_isDone h' hdone', hp.mem_iff]

/-- Between any two observations the artifacts ascend, each of them was found and reported by the first observation
that points to it and by no other one, and none is lost later on. The callers come to an end, and what is known then
are the artifacts of libraries that they observe, whatever the order was and whoever observed what. A request that no
other caller comes into is such a sequence of observations. -/
theorem libraries_found_in_any_order {programs : List (List Request)} {s : Session}
    (h : Reaches (start programs) s) :
    s.Tracked ∧
    (∀ s', Reaches s s' → s.tracker.artifacts ⊆ s'.tracker.artifacts) ∧
    (∃ s', Reaches s s' ∧ s'.IsDone) ∧
    (s.IsDone → s.observed.Perm (observations programs) ∧
      (∀ a, a ∈ s.tracker.artifacts ↔ ∃ o ∈ observations programs, o.PointsTo a) ∧
      ∀ programs' s', Reaches (start programs') s' → s'.IsDone →
        (observations programs).Perm (observations programs') → s.tracker.artifacts = s'.tracker.artifacts) ∧
    (∀ (r : Request) t before rest after answers, ∃ answers',
      Reaches ⟨t, before ++ (r.observations ++ rest) :: after, answers⟩
        ⟨r.serve t, before ++ rest :: after, answers'⟩) := by
  refine ⟨tracked_of_reaches h, fun _ => subset_of_reaches, exists_reaches_isDone s, ?_, ?_⟩
  · intro hdone
    exact ⟨observed_perm_of_isDone h hdone, mem_artifacts_of_isDone h hdone,
      fun _ _ h' hdone' => artifacts_eq_of_perm h hdone h' hdone'⟩
  · intro r t before rest after answers
    rw [Request.serve_eq_foldl]
    exact exists_reaches_foldl t before r.observations rest after answers

/-- One caller meets rules of an artifact first from the platform and then from a library; the other one observes
another library and a rule without an artifact. -/
def twoCallers : List (List Request) :=
  [[.findings [⟨.deprecated none, .sdkLint, some "androidx.core:core", .exact⟩,
    ⟨.removed none, .googleMaven, some "androidx.core:core", .exact⟩]],
    [.observation ⟨.mavenCentral, some "com.squareup.okhttp3:okhttp"⟩, .observation ⟨.googleMaven, none⟩]]

/-- The callers take turns, and both libraries are found. -/
theorem libraries_of_two_callers : ∃ s, Reaches (start twoCallers) s ∧ s.IsDone ∧
    s.answers.map Answer.fresh = [false, true, true, false] ∧
    s.tracker.artifacts = ["androidx.core:core", "com.squareup.okhttp3:okhttp"] ∧
    s.Tracked ∧ ∀ a, a ∈ s.tracker.artifacts ↔ ∃ o ∈ observations twoCallers, o.PointsTo a := by
  have h : ∃ s, Reaches (start twoCallers) s ∧ s.pending = [[], []] ∧
      s.answers.map Answer.fresh = [false, true, true, false] ∧
      s.tracker.artifacts = ["androidx.core:core", "com.squareup.okhttp3:okhttp"] := by
    refine ⟨_, .head (.take _ [] _ _ _ _) <| .head (.take _ [[_]] _ _ _ _) <| .head (.take _ [] _ _ _ _) <|
      .head (.take _ [[]] _ _ _ _) .refl, rfl, by decide, by decide⟩
  obtain ⟨s, hs, hpending, hanswers, hartifacts⟩ := h
  have hdone : s.IsDone := by simp [IsDone, hpending]
  obtain ⟨htracked, -, -, hknown, -⟩ := libraries_found_in_any_order hs
  exact ⟨s, hs, hdone, hanswers, hartifacts, htracked, (hknown hdone).2.1⟩

end Session

end ApiRules.Tracker
