import ApiRules.Proofs.Container
import Mathlib.Logic.Basic
import Mathlib.Tactic.SplitIfs

/-!
The integrity of containers. What is accepted is the header of a payload with this payload behind it. So a
change of the header is refused, and a change of the payload is refused unless both payloads have one digest.
-/
namespace ApiRules

namespace Container

open Archive

theorem append_fields (head : Bytes) :
    head.take 8 ++ (head.drop 8).take 4 ++ (head.drop 12).take 4 ++ head.drop 16 = head := by
  rw [← List.take_add, ← List.take_add, List.take_append_drop]

theorem version_prefix_iff {head : Bytes} {n : Nat} : magic ++ ofNat 4 n <+: head ↔
    head.take 8 = magic ∧ (head.drop 8).take 4 = ofNat 4 n := by
  constructor
  · rintro ⟨rest, rfl⟩
    refine ⟨rfl, ?_⟩
    have hrest : (magic ++ ofNat 4 n ++ rest).drop 8 = ofNat 4 n ++ rest := rfl
    rw [hrest, List.take_left' (length_ofNat 4 n)]
  · rintro ⟨hmagic, hword⟩
    refine ⟨(head.drop 12).take 4 ++ head.drop 16, ?_⟩
    rw [← hmagic, ← hword, ← List.append_assoc]
    exact append_fields head

variable {bytes : Bytes}

theorem word_eq_iff (h : headerSize ≤ bytes.length) {n : UInt32} :
    UInt32.ofNat (toNat (((bytes.take headerSize).drop 8).take 4)) = n ↔
      ((bytes.take headerSize).drop 8).take 4 = ofNat 4 n.toNat := by
  apply ofNat_toNat_eq_iff
  rw [List.length_take, List.length_drop, List.length_take, Nat.min_eq_left h]
  rfl

theorem decode_of_length_lt (h : bytes.length < headerSize) :
    decode bytes = .error (.corrupt (.truncatedHeader bytes.length)) := if_pos h

/-- A header of another version is refused for its version, whatever else it holds. -/
theorem decode_eq_versionMismatch {found : UInt32} : decode bytes = .error (.versionMismatch found) ↔
    headerSize ≤ bytes.length ∧ magic ++ ofNat 4 found.toNat <+: bytes ∧ found ≠ version := by
  have hstart : magic ++ ofNat 4 found.toNat <+: bytes ↔
      magic ++ ofNat 4 found.toNat <+: bytes.take headerSize := by
    rw [List.prefix_take_iff, List.length_append, length_ofNat]
    exact (and_iff_left (by decide)).symm
  rw [hstart, version_prefix_iff]
  constructor
  · intro h
    simp only [decode] at h
    split_ifs at h with hsize hmagic hversion
    · cases h
    · cases h
    · obtain rfl := LoadError.versionMismatch.inj (Except.error.inj h)
      have hle := Nat.le_of_not_lt hsize
      exact ⟨hle, ⟨not_not.1 hmagic, (word_eq_iff hle).1 rfl⟩, hversion⟩
    · cases h
    · cases h
    · split at h <;> cases h
  · rintro ⟨hsize, ⟨hmagic, hword⟩, hfound⟩
    simp only [decode, if_neg (Nat.not_lt.2 hsize), hmagic, (word_eq_iff hsize).2 hword, ne_eq,
      not_true_eq_false, if_false, if_pos hfound]

/-- What is accepted is the header of a payload and the payload. -/
theorem eq_header_append_of_decode {t : Table} {d : Digest} (h : decode bytes = .ok (t, d)) :
    bytes = header (bytes.drop headerSize) ++ bytes.drop headerSize := by
  simp only [decode] at h
  split_ifs at h with hsize hmagic hversion hreserved hdigest
  have hword := (word_eq_iff (Nat.le_of_not_lt hsize)).1 (not_not.1 hversion)
  have hhead : bytes.take headerSize = header (bytes.drop headerSize) := by
    rw [header, ← not_not.1 hdigest, ← not_not.1 hreserved, ← hword, ← not_not.1 hmagic, append_fields]
  rw [← hhead, List.take_append_drop]

end Container

/-- Bytes are refused for their version if they are long enough, begin with the magic and state another version.
What is accepted has the magic, the version one, four zeros and the digest of what follows the header. So bytes
that differ from a container in the header only are refused, and so is a part of its header; behind its header
another payload is refused for its digest, or has the digest of the payload. -/
theorem containers_intact :
    (∀ b found, Container.decode b = .error (.versionMismatch found) ↔
      48 ≤ b.length ∧ Container.magic ++ Archive.ofNat 4 found.toNat <+: b ∧ found ≠ 1) ∧
    (∀ b t d, Container.decode b = .ok (t, d) →
      48 ≤ b.length ∧ b.take 8 = Container.magic ∧ (b.drop 8).take 4 = Archive.ofNat 4 1 ∧
        (b.drop 12).take 4 = Archive.zeros 4 ∧ (b.drop 16).take 32 = Sha256.digest (b.drop 48)) ∧
    ∀ t c, Container.encode? t = some c →
      (∀ b, b ≠ c → b.drop 48 = c.drop 48 → ∃ e, Container.decode b = .error e) ∧
      (∀ b, b <+: c → b.length < 48 →
        Container.decode b = .error (.corrupt (.truncatedHeader b.length))) ∧
      ∀ b, b.take 48 = c.take 48 → b.drop 48 ≠ c.drop 48 →
        Container.decode b = .error (.corrupt .digestMismatch) ∨
          Sha256.digest (b.drop 48) = Sha256.digest (c.drop 48) := by
  refine ⟨fun b found => Container.decode_eq_versionMismatch, fun b t d h => ?_, fun t c hc => ?_⟩
  · have hb := Container.eq_header_append_of_decode h
    have hdrop : b.drop 48 = b.drop Container.headerSize := rfl
    rw [hdrop]
    generalize b.drop Container.headerSize = payload at hb
    rw [hb]
    have hlength : 48 ≤ (Container.header payload ++ payload).length := by
      rw [List.length_append, Container.length_header]
      exact Nat.le_add_right 48 _
    have hdigest : (Container.header payload ++ payload).drop 16 = Sha256.digest payload ++ payload := rfl
    refine ⟨hlength, rfl, rfl, rfl, ?_⟩
    rw [hdigest, List.take_left' (Sha256.length_digest payload)]
  · obtain ⟨payload, hp, rfl⟩ := Option.map_eq_some_iff.1 hc
    have htake : (Container.header payload ++ payload).take 48 = Container.header payload :=
      List.take_left' (Container.length_header payload)
    have hdrop : (Container.header payload ++ payload).drop 48 = payload :=
      List.drop_left' (Container.length_header payload)
    rw [htake, hdrop]
    refine ⟨fun b hne hb => ?_, fun b _ hb => Container.decode_of_length_lt hb, fun b hb hne => ?_⟩
    · cases hd : Container.decode b with
      | error e => exact ⟨e, rfl⟩
      | ok r =>
        have he := Container.eq_header_append_of_decode hd
        have hb : b.drop Container.headerSize = payload := hb
        rw [hb] at he
        exact absurd he hne
    · have hother : b = Container.header payload ++ b.drop 48 := by rw [← hb, List.take_append_drop]
      by_cases hd : Sha256.digest (b.drop 48) = Sha256.digest payload
      · exact .inr hd
      · rw [hother, Container.decode_header_append]
        exact .inl (if_pos fun he => hd he.symm)

/-- A container with one rule: with another version, with another first byte, cut off in the header, and with one
more byte at the end. -/
theorem container_of_removed_method :
    let t : Table :=
      ⟨[⟨.sdkLint, [⟨"a.B#c()", [⟨.removed (some 30), some "androidx.core:core"⟩]⟩]⟩], [], []⟩
    ∃ c, Container.encode? t = some c ∧
      Container.decode (Container.magic ++ Archive.ofNat 4 7 ++ c.drop 12) = .error (.versionMismatch 7) ∧
      (c.drop 16).take 32 = Sha256.digest (c.drop 48) ∧
      (∃ e, Container.decode (0x58 :: c.drop 1) = .error e) ∧
      Container.decode (c.take 20) = .error (.corrupt (.truncatedHeader 20)) ∧
      Container.decode (c ++ [0]) = .error (.corrupt .digestMismatch) := by
  intro t
  let payload := (Archive.table.encode? t).getD []
  have hp : Archive.table.encode? t = some payload := by decide +kernel
  have hcollision : Sha256.digest (payload ++ [0]) ≠ Sha256.digest payload := by decide +kernel
  have hread := Container.decode_container (Archive.Layout.decode?_of_encode? (Archive.faithful_table t) hp)
  have hheader := Container.length_header payload
  have hc : Container.encode? t = some (Container.header payload ++ payload) :=
    Option.map_eq_some_iff.2 ⟨payload, hp, rfl⟩
  generalize hcs : Container.header payload ++ payload = c at hread hc
  have hdrop : c.drop 48 = payload := by
    rw [← hcs]
    exact List.drop_left' hheader
  have hlong : 48 ≤ c.length := by
    rw [← hcs, List.length_append, hheader]
    exact Nat.le_add_right 48 _
  obtain ⟨hversion, haccepted, hdamaged⟩ := containers_intact
  obtain ⟨hchanged, hcut, hreplaced⟩ := hdamaged t c hc
  refine ⟨c, hc, ?_, ?_, ?_, ?_, ?_⟩
  · apply (hversion _ 7).2
    refine ⟨?_, List.prefix_append _ _, by decide⟩
    rw [List.length_append, List.length_drop]
    have h12 : (Container.magic ++ Archive.ofNat 4 7).length = 12 := rfl
    omega
  · exact (haccepted c t _ hread).2.2.2.2
  · apply hchanged
    · intro he
      have hmagic := (haccepted c t _ hread).2.1
      rw [← he] at hmagic
      exact absurd (List.cons.inj hmagic).1 (by decide)
    · rw [List.drop_succ_cons, List.drop_drop]
  · have h20 : (c.take 20).length = 20 := by
      rw [List.length_take]
      omega
    have h := hcut (c.take 20) (List.take_prefix 20 c) (by omega)
    rwa [h20] at h
  · have happend : (c ++ [0]).drop 48 = payload ++ [0] := by
      rw [List.drop_append_of_le_length hlong, hdrop]
    have h := hreplaced (c ++ [0]) (List.take_append_of_le_length hlong) (by rw [happend, hdrop]; simp)
    rw [happend, hdrop] at h
    exact h.resolve_right hcollision

end ApiRules
