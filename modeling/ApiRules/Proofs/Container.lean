import ApiRules.Container
import ApiRules.Proofs.Archive.Table

/-!
Containers are read back: the header in front of a payload passes its checks, and the payload is the
archive of the table.
-/
namespace ApiRules

namespace Sha256

theorem length_bigEndian (size n : Nat) : (bigEndian size n).length = size := by
  rw [bigEndian, List.length_map, List.length_reverse, List.length_range]

theorem length_compress {hash : List UInt32} (h : hash.length = 8) (block : List UInt32) :
    (compress hash block).length = 8 := by
  rw [compress, List.length_zipWith, h]
  rfl

theorem length_absorb {hash : List UInt32} (h : hash.length = 8) (count : Nat) (ws : List UInt32) :
    (absorb hash count ws).length = 8 := by
  induction count generalizing hash ws with
  | zero => exact h
  | succ count ih =>
    cases ws with
    | nil => exact h
    | cons w ws => exact ih (length_compress h _) _

theorem length_digest (message : List UInt8) : (digest message).length = 32 := by
  have h : (absorb initial (words (pad message)).length (words (pad message))).length = 8 :=
    length_absorb rfl _ _
  simp only [digest, List.length_flatMap, length_bigEndian, List.map_const', h, List.sum_replicate_nat]

end Sha256

namespace Container

theorem length_header (payload : Archive.Bytes) : (header payload).length = headerSize := by
  rw [header, List.length_append, Digest.ofPayload, Sha256.length_digest]
  rfl

/-- Behind a header the digest is checked, and then the archive is read. -/
theorem decode_header_append (payload other : Archive.Bytes) : decode (header payload ++ other) =
    if (Digest.ofPayload payload).bytes ≠ (Digest.ofPayload other).bytes then
      .error (.corrupt .digestMismatch)
    else (Archive.table.decode? other).elim (.error (.corrupt (.badArchive other))) fun t =>
      .ok (t, Digest.ofPayload other) := by
  have hsize : ¬(header payload ++ other).length < headerSize := by
    rw [List.length_append, length_header]
    exact Nat.not_lt.2 (Nat.le_add_right _ _)
  have htake : (header payload ++ other).take headerSize = header payload :=
    List.take_left' (length_header payload)
  have hdrop : (header payload ++ other).drop headerSize = other :=
    List.drop_left' (length_header payload)
  have hmagic : (header payload).take 8 = magic := rfl
  have hversion : UInt32.ofNat (Archive.toNat (((header payload).drop 8).take 4)) = version := rfl
  have hreserved : ((header payload).drop 12).take 4 = Archive.zeros 4 := rfl
  have hdigest : (header payload).drop 16 = (Digest.ofPayload payload).bytes := rfl
  simp only [decode, htake, hdrop, if_neg hsize, hmagic, hversion, hreserved, hdigest, ne_eq,
    not_true_eq_false, if_false]
  cases Archive.table.decode? other <;> rfl

/-- A payload in a container is found with its digest. -/
theorem decode_container {payload : Archive.Bytes} {t : Table}
    (h : Archive.table.decode? payload = some t) :
    decode (header payload ++ payload) = .ok (t, Digest.ofPayload payload) := by
  rw [decode_header_append, if_neg (fun hne => hne rfl), h, Option.elim_some]

end Container

end ApiRules
