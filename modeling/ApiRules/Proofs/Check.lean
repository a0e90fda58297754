import ApiRules.Command.Report
import ApiRules.Proofs.Dataset.Loading
import ApiRules.Proofs.Text.Trim
import ApiRules.Proofs.Tracker

/-!
Checks of texts line by line. What a line comes to is found from this line alone, and where two texts are joined by
a line feed, the second one only has its lines counted on. Below the results a box with three numbers is printed, and
the libraries that the findings came from.
-/
namespace ApiRules

open Text

variable {l : Linter} {context : Query.Context} {content raw : List Char} {n : Nat}

/-- The same line further down. -/
def CheckedLine.shifted (k : Nat) (c : CheckedLine) : CheckedLine := { c with number := c.number + k }

namespace Check

/-- The text has this line at this place. Lines are counted from one. -/
inductive HasLine : List Char → Nat → List Char → Prop where
  | last {raw : List Char} (h : '\n' ∉ raw) : HasLine raw 1 raw
  | first {raw rest : List Char} (h : '\n' ∉ raw) : HasLine (raw ++ '\n' :: rest) 1 raw
  | later {before rest raw : List Char} {n : Nat} (h : '\n' ∉ before) (hr : HasLine rest n raw) :
      HasLine (before ++ '\n' :: rest) (n + 1) raw

/-- The line is blank or a comment. -/
def PassedOver (raw : List Char) : Prop := isBlankText raw = true ∨ (trim raw).head? = some '#'

theorem isSignatureLine_iff : isSignatureLine (trim raw) = true ↔ ¬PassedOver raw := by
  have htrim : trim raw = [] ↔ isBlankText raw = true := by
    constructor
    · intro h
      by_contra hb
      obtain ⟨l, c, r, rfl, hc⟩ := exists_append_cons_of_isBlankText (by simpa using hb)
      simp [trim_append_cons hc] at h
    · exact trim_of_isBlankText
  rw [PassedOver, ← htrim]
  cases trim raw with
  | nil => simp [isSignatureLine]
  | cons c cs => simp [isSignatureLine]

theorem hasLine_iff : HasLine content n raw ↔ ∃ ps qs, splitOn '\n' content = ps ++ raw :: qs ∧ ps.length + 1 = n := by
  constructor
  · intro h
    induction h with
    | last h => exact ⟨[], [], splitOn_of_not_mem h, rfl⟩
    | first h => exact ⟨[], _, splitOn_append h, rfl⟩
    | @later before rest raw n h _ ih =>
      obtain ⟨ps, qs, hsplit, rfl⟩ := ih
      refine ⟨before :: ps, qs, ?_, rfl⟩
      rw [splitOn_append h, hsplit, List.cons_append]
  · rintro ⟨ps, qs, hsplit, rfl⟩
    induction ps generalizing content with
    | nil =>
      obtain ⟨hm, hlast⟩ | ⟨first, rest, rfl, hfirst, hcons⟩ := splitOn_cases '\n' content
      · obtain ⟨rfl, -⟩ := List.cons.inj (hlast.symm.trans hsplit)
        exact .last hm
      · obtain ⟨rfl, -⟩ := List.cons.inj (hcons.symm.trans hsplit)
        exact .first hfirst
    | cons p ps ih =>
      obtain ⟨hm, hlast⟩ | ⟨first, rest, rfl, hfirst, hcons⟩ := splitOn_cases '\n' content
      · simpa using (List.cons.inj (hlast.symm.trans hsplit)).2
      · exact .later hfirst (ih (List.cons.inj (hcons.symm.trans hsplit)).2)

/-- What one line comes to. -/
def checks (l : Linter) (context : Query.Context) (raw : List Char) (n : Nat) : List CheckedLine :=
  if isSignatureLine (trim raw) then [line l context n (trim raw)] else []

/-- What lines come to that are counted from `n` on. -/
def checksFrom (l : Linter) (context : Query.Context) (n : Nat) (raws : List (List Char)) : List CheckedLine :=
  (raws.zipIdx n).flatMap fun (raw, i) => checks l context raw i

theorem lines_eq (l : Linter) (context : Query.Context) (content : String) :
    lines l context content = checksFrom l context 1 (splitOn '\n' content.toList) := by
  rw [lines, signatureLines, checksFrom]
  induction (splitOn '\n' content.toList).zipIdx 1 with
  | nil => rfl
  | cons x xs ih =>
    rw [List.flatMap_cons, ← ih]
    by_cases h : isSignatureLine (trim x.1) = true
    · simp [checks, h]
    · simp [checks, h]

theorem checksFrom_append (l : Linter) (context : Query.Context) (n : Nat) (ps qs : List (List Char)) :
    checksFrom l context n (ps ++ qs) = checksFrom l context n ps ++ checksFrom l context (n + ps.length) qs := by
  rw [checksFrom, List.zipIdx_append, List.flatMap_append]
  rfl

theorem checksFrom_cons (l : Linter) (context : Query.Context) (n : Nat) (raw : List Char) (raws : List (List Char)) :
    checksFrom l context n (raw :: raws) = checks l context raw n ++ checksFrom l context (n + 1) raws := rfl

theorem number_of_mem_checks {c : CheckedLine} (h : c ∈ checks l context raw n) : c.number = n := by
  rw [checks] at h
  split at h
  · rw [List.mem_singleton.1 h]
    rfl
  · cases h

theorem line_shifted (l : Linter) (context : Query.Context) (n k : Nat) (cs : List Char) :
    (line l context n cs).shifted k = line l context (n + k) cs := by
  simp only [line, CheckedLine.shifted]

theorem map_number_checks (l : Linter) (context : Query.Context) (raw : List Char) (n k : Nat) :
    (checks l context raw k).map (fun c => { c with number := n }) = checks l context raw n := by
  rw [checks, checks]
  split
  · simp only [line, List.map_cons, List.map_nil]
  · rfl

theorem map_shifted_checksFrom (l : Linter) (context : Query.Context) (n k : Nat) (raws : List (List Char)) :
    (checksFrom l context n raws).map (CheckedLine.shifted k) = checksFrom l context (n + k) raws := by
  induction raws generalizing n with
  | nil => rfl
  | cons raw raws ih =>
    have hraw : (checks l context raw n).map (CheckedLine.shifted k) = checks l context raw (n + k) := by
      rw [checks, checks]
      split
      · rw [List.map_singleton, line_shifted]
      · rfl
    rw [checksFrom_cons, checksFrom_cons, List.map_append, ih, hraw, Nat.add_right_comm]

theorem exists_line_of_mem_checksFrom {raws : List (List Char)} {c : CheckedLine} (h : c ∈ checksFrom l context n raws) :
    ∃ ps raw qs, raws = ps ++ raw :: qs ∧ n + ps.length = c.number := by
  induction raws generalizing n with
  | nil => cases h
  | cons raw raws ih =>
    rw [checksFrom_cons] at h
    obtain h | h := List.mem_append.1 h
    · exact ⟨[], raw, raws, rfl, (number_of_mem_checks h).symm⟩
    · obtain ⟨ps, raw', qs, rfl, hn⟩ := ih h
      refine ⟨raw :: ps, raw', qs, rfl, ?_⟩
      rw [← hn, List.length_cons]
      omega

theorem pairwise_number_checksFrom (l : Linter) (context : Query.Context) (n : Nat) (raws : List (List Char)) :
    (checksFrom l context n raws).Pairwise fun c d => c.number < d.number := by
  induction raws generalizing n with
  | nil => exact List.Pairwise.nil
  | cons raw raws ih =>
    rw [checksFrom_cons]
    refine List.pairwise_append.2 ⟨?_, ih (n + 1), ?_⟩
    · rw [checks]
      split
      · exact List.pairwise_singleton _ _
      · exact List.Pairwise.nil
    · intro c hc d hd
      obtain ⟨ps, -, -, -, hn⟩ := exists_line_of_mem_checksFrom hd
      rw [number_of_mem_checks hc]
      omega

theorem filter_number_checksFrom (l : Linter) (context : Query.Context) (ps : List (List Char)) (raw : List Char)
    (qs : List (List Char)) :
    ((checksFrom l context 1 (ps ++ raw :: qs)).filter fun c => c.number = ps.length + 1) =
      checks l context raw (ps.length + 1) := by
  have hbefore : ((checksFrom l context 1 ps).filter fun c => c.number = ps.length + 1) = [] := by
    apply List.filter_eq_nil_iff.2
    intro c hc
    obtain ⟨ps', raw', qs', rfl, hn⟩ := exists_line_of_mem_checksFrom hc
    simp only [List.length_append, List.length_cons, decide_eq_true_eq]
    omega
  have hline : ((checks l context raw (ps.length + 1)).filter fun c => c.number = ps.length + 1) =
      checks l context raw (ps.length + 1) := by
    apply List.filter_eq_self.2
    intro c hc
    exact decide_eq_true (number_of_mem_checks hc)
  have hafter : ((checksFrom l context (ps.length + 1 + 1) qs).filter fun c => c.number = ps.length + 1) = [] := by
    apply List.filter_eq_nil_iff.2
    intro c hc
    obtain ⟨ps', raw', qs', -, hn⟩ := exists_line_of_mem_checksFrom hc
    simp only [decide_eq_true_eq]
    omega
  rw [checksFrom_append, checksFrom_cons, List.filter_append, List.filter_append, hbefore, Nat.add_comm 1, hline,
    hafter, List.nil_append, List.append_nil]

theorem lines_append (l : Linter) (context : Query.Context) (c₁ c₂ : String) :
    lines l context (c₁ ++ "\n" ++ c₂) =
      lines l context c₁ ++ (lines l context c₂).map (CheckedLine.shifted (c₁.toList.count '\n' + 1)) := by
  have hjoin : (c₁ ++ "\n" ++ c₂).toList = c₁.toList ++ '\n' :: c₂.toList := by simp
  rw [lines_eq, lines_eq, lines_eq, hjoin, splitOn_append_cons, checksFrom_append, length_splitOn,
    map_shifted_checksFrom]

theorem lines_ofList (h : '\n' ∉ raw) : lines l context (String.ofList raw) = checks l context raw 1 := by
  rw [lines_eq, String.toList_ofList, splitOn_of_not_mem h, checksFrom_cons]
  exact List.append_nil _

theorem HasLine.not_mem (h : HasLine content n raw) : '\n' ∉ raw := by
  induction h with
  | last h | first h => exact h
  | later _ _ ih => exact ih

theorem filter_number_lines {content : String} (h : HasLine content.toList n raw) :
    ((lines l context content).filter fun c => c.number = n) =
      (lines l context (String.ofList raw)).map fun c => { c with number := n } := by
  obtain ⟨ps, qs, hsplit, rfl⟩ := hasLine_iff.1 h
  rw [lines_ofList h.not_mem, map_number_checks, lines_eq, hsplit, filter_number_checksFrom]

theorem exists_hasLine {content : String} {c : CheckedLine} (h : c ∈ lines l context content) :
    ∃ raw, HasLine content.toList c.number raw := by
  rw [lines_eq] at h
  obtain ⟨ps, raw, qs, hsplit, hn⟩ := exists_line_of_mem_checksFrom h
  exact ⟨raw, hasLine_iff.2 ⟨ps, qs, hsplit, by omega⟩⟩

/-- What lines show to the tracker, one line after another. -/
def requests (cs : List CheckedLine) : List Tracker.Request := cs.map fun c => .findings c.found

theorem track_eq_foldl (cs : List CheckedLine) :
    track cs = ((requests cs).flatMap Tracker.Request.observations).foldl Tracker.see .empty := by
  rw [track, requests, List.foldl_flatMap, List.foldl_map]
  simp only [← Tracker.Request.serve_eq_foldl]
  rfl

/-- The tracker of a check is left as by one caller that has no other one beside it. -/
theorem exists_reaches_track (cs : List CheckedLine) :
    ∃ s, Tracker.Session.Reaches (.start [requests cs]) s ∧ s.IsDone ∧ s.tracker = track cs := by
  obtain ⟨answers, h⟩ := Tracker.Session.exists_reaches_foldl .empty []
    ((requests cs).flatMap Tracker.Request.observations) [] [] []
  rw [List.append_nil] at h
  refine ⟨_, h, ?_, (track_eq_foldl cs).symm⟩
  simp [Tracker.Session.IsDone]

theorem pairwise_dependencies (cs : List CheckedLine) :
    (summary cs).dependencies.Pairwise fun a b => Archive.ofText a < Archive.ofText b := by
  obtain ⟨s, hs, -, htrack⟩ := exists_reaches_track cs
  rw [summary, ← htrack]
  exact (Tracker.Session.tracked_of_reaches hs).ascending

theorem mem_dependencies {cs : List CheckedLine} {a : String} :
    a ∈ (summary cs).dependencies ↔ ∃ c ∈ cs, ∃ f ∈ c.found, f.source ≠ .sdkLint ∧ f.artifact = some a := by
  obtain ⟨s, hs, hdone, htrack⟩ := exists_reaches_track cs
  rw [summary, ← htrack, Tracker.Session.mem_artifacts_of_isDone hs hdone]
  simp [Tracker.Session.observations, requests, Tracker.Request.observations, Tracker.Observation.PointsTo, and_assoc]

theorem summary_map_shifted (k : Nat) (cs : List CheckedLine) :
    summary (cs.map (CheckedLine.shifted k)) = summary cs := by
  rw [summary, summary, track, track, List.length_map, List.countP_map, List.countP_map, List.foldl_map]
  rfl

end Check

/-- The signature is answered with at least one finding. -/
def CheckedLine.HasFindings (c : CheckedLine) : Prop := ∃ f fs, c.findings = .ok (f :: fs)

/-- There is no answer: the text or a query was refused. -/
def CheckedLine.IsRefused (c : CheckedLine) : Prop := ∃ e, c.findings = .error e

theorem CheckedLine.isFlagged_iff {c : CheckedLine} : c.isFlagged = true ↔ c.HasFindings := by
  obtain ⟨number, text, findings⟩ := c
  rcases findings with e | _ | ⟨f, fs⟩
  · simp [isFlagged, found, HasFindings]
  · simp [isFlagged, found, HasFindings]
  · simp [isFlagged, found, HasFindings]

theorem CheckedLine.isInvalid_iff {c : CheckedLine} : c.isInvalid = true ↔ c.IsRefused := by
  obtain ⟨number, text, e | fs⟩ := c
  · simp [isInvalid, IsRefused]
  · simp [isInvalid, IsRefused]

instance (c : CheckedLine) : Decidable c.HasFindings := decidable_of_iff _ CheckedLine.isFlagged_iff

instance (c : CheckedLine) : Decidable c.IsRefused := decidable_of_iff _ CheckedLine.isInvalid_iff

namespace CheckSummary

/-- The numbers are those of the lines, of the lines with findings and of the refused lines. The libraries are those
of the findings, each of them once and in ascending order. -/
structure Counts (s : CheckSummary) (cs : List CheckedLine) : Prop where
  signatures : s.signatures = cs.length
  flagged : s.flagged = cs.countP CheckedLine.HasFindings
  invalid : s.invalid = cs.countP CheckedLine.IsRefused
  ascending : s.dependencies.Pairwise fun a b => Archive.ofText a < Archive.ofText b
  mem_dependencies_iff : ∀ a, a ∈ s.dependencies ↔
    ∃ c ∈ cs, ∃ fs, c.findings = .ok fs ∧ ∃ f ∈ fs, f.source ≠ .sdkLint ∧ f.artifact = some a

/-- The numbers of the summary add up, and its libraries are those of both others, each of them once and in
ascending order. -/
structure Joins (s s₁ s₂ : CheckSummary) : Prop where
  signatures : s.signatures = s₁.signatures + s₂.signatures
  flagged : s.flagged = s₁.flagged + s₂.flagged
  invalid : s.invalid = s₁.invalid + s₂.invalid
  ascending : s.dependencies.Pairwise fun a b => Archive.ofText a < Archive.ofText b
  mem_dependencies_iff : ∀ a, a ∈ s.dependencies ↔ a ∈ s₁.dependencies ∨ a ∈ s₂.dependencies

end CheckSummary

namespace Check

theorem counts_summary (cs : List CheckedLine) : (summary cs).Counts cs where
  signatures := rfl
  flagged := List.countP_congr fun c _ => by rw [CheckedLine.isFlagged_iff, decide_eq_true_iff]
  invalid := List.countP_congr fun c _ => by rw [CheckedLine.isInvalid_iff, decide_eq_true_iff]
  ascending := pairwise_dependencies cs
  mem_dependencies_iff a := by
    rw [mem_dependencies]
    refine exists_congr fun c => and_congr_right fun _ => ?_
    rcases h : c.findings with e | fs
    · simp [CheckedLine.found, h]
    · simp [CheckedLine.found, h]

theorem joins_summary_append (cs ds : List CheckedLine) : (summary (cs ++ ds)).Joins (summary cs) (summary ds) where
  signatures := List.length_append
  flagged := List.countP_append
  invalid := List.countP_append
  ascending := pairwise_dependencies (cs ++ ds)
  mem_dependencies_iff a := by
    simp only [mem_dependencies, List.mem_append, or_and_right, exists_or]

/-- A number at the right end of its row of the box. -/
def aligned (n : Nat) : String :=
  String.ofList (List.replicate (22 - (toString n).length) ' ') ++ toString n

/-- The lines that are printed for a result: nothing unless there are findings, else the place and the signature over
the findings. -/
def resultLines (file : String) (c : CheckedLine) : List String :=
  match c.findings with
  | .ok (f :: fs) => (file ++ ":" ++ toString c.number ++ ": " ++ c.text) :: (f :: fs).map fun f => "    " ++ f.text
  | _ => []

/-- The lines that are printed for a summary: the numbers in a box, and the libraries below it. -/
def summaryLines (s : CheckSummary) : List String :=
  ["+------------------------------------------+",
    "| APILINT CHECK                            |",
    "+------------------------------------------+",
    "| Signatures     : " ++ aligned s.signatures ++ " |",
    "| Flagged        : " ++ aligned s.flagged ++ " |",
    "| Invalid        : " ++ aligned s.invalid ++ " |",
    "+------------------------------------------+"] ++
  if s.dependencies = [] then ["No library dependencies detected."]
  else "" :: "DETECTED DEPENDENCIES:" :: s.dependencies.map fun a => "  " ++ a

theorem checkedLine_eq (file : String) (c : CheckedLine) : Command.Report.checkedLine file c = resultLines file c := by
  obtain ⟨number, text, findings⟩ := c
  rcases findings with e | _ | ⟨f, fs⟩
  · rfl
  · rfl
  · have hplace : file ++ s!":{number}: " ++ text = file ++ ":" ++ toString number ++ ": " ++ text := by
      simp only [String.append_assoc]
      rfl
    exact congrArg (· :: (f :: fs).map fun f => "    " ++ f.text) hplace

theorem summary_eq (s : CheckSummary) : Command.Report.summary s = summaryLines s := by
  have hborder : Command.Box.border = "+------------------------------------------+" := by decide
  have htitle : Command.Box.title "APILINT CHECK" = "| APILINT CHECK                            |" := by decide
  have hsignatures : "| " ++ padRight 14 "Signatures" ++ " : " = "| Signatures     : " := by decide
  have hflagged : "| " ++ padRight 14 "Flagged" ++ " : " = "| Flagged        : " := by decide
  have hinvalid : "| " ++ padRight 14 "Invalid" ++ " : " = "| Invalid        : " := by decide
  have hlibraries : Command.Report.dependencies s.dependencies =
      if s.dependencies = [] then ["No library dependencies detected."]
      else "" :: "DETECTED DEPENDENCIES:" :: s.dependencies.map fun a => "  " ++ a := by
    cases s.dependencies with
    | nil => rfl
    | cons a as => rfl
  simp only [Command.Report.summary, Command.Box.lines, Command.Box.row, List.map_cons, List.map_nil, hborder, htitle,
    hsignatures, hflagged, hinvalid, hlibraries]
  rfl

/-- What is printed of a check: its results, then the summary of its numbers and libraries. -/
theorem check_eq (file : String) (cs : List CheckedLine) :
    Command.Report.check file cs = cs.flatMap (resultLines file) ++ summaryLines (summary cs) := by
  rw [Command.Report.check, summary_eq, funext (checkedLine_eq file)]

theorem lines_of_passedOver (h : '\n' ∉ raw) (hp : PassedOver raw) : lines l context (String.ofList raw) = [] := by
  rw [lines_ofList h, checks, if_neg fun hs => isSignatureLine_iff.1 hs hp]

theorem lines_of_not_passedOver (h : '\n' ∉ raw) (hp : ¬PassedOver raw) :
    lines l context (String.ofList raw) = [line l context 1 (trim raw)] := by
  rw [lines_ofList h, checks, if_pos (isSignatureLine_iff.2 hp)]

/-- Where two texts are joined by a line feed, the results of the second one follow those of the first one, with as
many lines counted on as the first text has. What stands at a line is what this line comes to by itself: nothing for
blank lines and comments, else the answer for its signature. Results are in the order of their lines. What is printed
ends with the numbers of the lines, of those with findings and of the refused ones, and with the libraries found. Of
joined texts, the numbers are the sums and the libraries are put together. -/
theorem checks_of_joined_texts (l : Linter) (context : Query.Context) :
    (∀ c₁ c₂ : String, lines l context (c₁ ++ "\n" ++ c₂) =
      lines l context c₁ ++ (lines l context c₂).map (CheckedLine.shifted (c₁.toList.count '\n' + 1))) ∧
    (∀ (content : String) n raw, HasLine content.toList n raw →
      ((lines l context content).filter fun c => c.number = n) =
        (lines l context (String.ofList raw)).map fun c => { c with number := n }) ∧
    (∀ raw, '\n' ∉ raw →
      (PassedOver raw → lines l context (String.ofList raw) = []) ∧
      (¬PassedOver raw → lines l context (String.ofList raw) = [line l context 1 (trim raw)])) ∧
    (∀ content, ((lines l context content).Pairwise fun c d => c.number < d.number) ∧
      ∀ c ∈ lines l context content, ∃ raw, HasLine content.toList c.number raw) ∧
    ∀ c₁ c₂ : String, ∃ s₁ s₂ s : CheckSummary,
      s₁.Counts (lines l context c₁) ∧ s₂.Counts (lines l context c₂) ∧ s.Joins s₁ s₂ ∧
      ∀ file,
        Command.Report.check file (lines l context c₁) =
          (lines l context c₁).flatMap (resultLines file) ++ summaryLines s₁ ∧
        Command.Report.check file (lines l context c₂) =
          (lines l context c₂).flatMap (resultLines file) ++ summaryLines s₂ ∧
        Command.Report.check file (lines l context (c₁ ++ "\n" ++ c₂)) =
          (lines l context c₁).flatMap (resultLines file) ++
            ((lines l context c₂).map (CheckedLine.shifted (c₁.toList.count '\n' + 1))).flatMap (resultLines file) ++
            summaryLines s := by
  refine ⟨lines_append l context, fun content n raw => filter_number_lines,
    fun raw h => ⟨lines_of_passedOver h, lines_of_not_passedOver h⟩, fun content => ⟨?_, fun c => exists_hasLine⟩,
    fun c₁ c₂ => ⟨_, _, summary (lines l context (c₁ ++ "\n" ++ c₂)), counts_summary _, counts_summary _, ?_,
      fun file => ⟨check_eq file _, check_eq file _, ?_⟩⟩⟩
  · rw [lines_eq]
    exact pairwise_number_checksFrom l context 1 _
  · have hjoins := joins_summary_append (lines l context c₁)
      ((lines l context c₂).map (CheckedLine.shifted (c₁.toList.count '\n' + 1)))
    rwa [summary_map_shifted, ← lines_append] at hjoins
  · rw [check_eq, lines_append, List.flatMap_append]

/-- A class with a rule of a library, between a comment and a carriage return, and a text that cannot be read, on the
line after a blank one. -/
theorem checks_of_class_and_dots :
    let r : Record := ⟨.exact ⟨.ofName "A", none⟩, .removed none, .googleMaven, some "androidx.core:core"⟩
    let l := Linter.ofDataset (.made none [r] [])
    let context : Query.Context := ⟨none, false⟩
    let found : CheckedLine := ⟨2, "A", .ok [.ofRecord r .exact]⟩
    let failed : CheckedLine := ⟨4, "b..c", .error (.invalidSignature (.invalidOwner "b..c"))⟩
    lines l context "# note\nA\r\n \nb..c" = [found, failed] ∧
      ((lines l context "# note\nA\r").filter fun c => c.number = 2) =
        (lines l context "A\r").map (fun c => { c with number := 2 }) ∧
      lines l context "A\r" = [line l context 1 ['A']] ∧ lines l context " " = [] ∧
      (∃ raw, HasLine "# note\nA\r".toList 2 raw) ∧
      Command.Report.check "api.txt" (lines l context "# note\nA\r\n \nb..c") =
        ["api.txt:2: A",
          "    [removed] removed (Google Maven, androidx.core:core)",
          "+------------------------------------------+",
          "| APILINT CHECK                            |",
          "+------------------------------------------+",
          "| Signatures     :                      2 |",
          "| Flagged        :                      1 |",
          "| Invalid        :                      1 |",
          "+------------------------------------------+",
          "",
          "DETECTED DEPENDENCIES:",
          "  androidx.core:core"] := by
  intro r l context found failed
  obtain ⟨happend, hline, halone, horder, -⟩ := checks_of_joined_texts l context
  have hreturn : '\n' ∉ ['A', '\r'] := by decide
  have hclass : ¬PassedOver ['A', '\r'] := by
    rintro (h | h)
    · cases h
    · cases h
  have hanswer : (line l context 1 (trim ['A', '\r'])).findings = found.findings := by decide +kernel
  have hfound : lines l context "# note\nA\r" = [found] := by
    have hnote : lines l context "# note" = [] := (halone "# note".toList (by decide)).1 (.inr rfl)
    have hone : lines l context "A\r" = [{ found with number := 1 }] :=
      ((halone ['A', '\r'] hreturn).2 hclass).trans (congrArg (fun e => [(⟨1, "A", e⟩ : CheckedLine)]) hanswer)
    have h := happend "# note" "A\r"
    rw [hnote, hone] at h
    exact h
  have hfailed : lines l context " \nb..c" = [{ failed with number := 2 }] := rfl
  have hjoined : lines l context "# note\nA\r\n \nb..c" = [found, failed] := by
    have h := happend "# note\nA\r" " \nb..c"
    rw [hfound, hfailed] at h
    exact h
  have hmem : found ∈ lines l context "# note\nA\r" := by
    rw [hfound]
    exact List.mem_singleton_self found
  have hsecond : HasLine "# note\nA\r".toList 2 ['A', '\r'] :=
    @HasLine.later "# note".toList ['A', '\r'] ['A', '\r'] 1 (by decide) (.last hreturn)
  refine ⟨hjoined, hline "# note\nA\r" 2 ['A', '\r'] hsecond, (halone ['A', '\r'] hreturn).2 hclass,
    (halone [' '] (by decide)).1 (.inl rfl), (horder "# note\nA\r").2 found hmem, ?_⟩
  rw [hjoined]
  decide

end Check

end ApiRules
