import ApiRules.Proofs.Signature.Canonical
import ApiRules.Signature.Order

/-!
The order of signatures is total, and only equal signatures stand in one place.
-/
namespace ApiRules

theorem Owner.chars_injective : Function.Injective Owner.chars := by
  intro a b h
  have ho := (Owner.ofChars?_chars a).symm.trans ((congrArg Owner.ofChars? h).trans (Owner.ofChars?_chars b))
  exact Option.some.inj ho

theorem TypeName.chars_injective : Function.Injective TypeName.chars := by
  intro a b h
  have ht := (TypeName.parse_chars a).symm.trans ((congrArg TypeName.parse h).trans (TypeName.parse_chars b))
  exact Except.ok.inj ht

theorem MemberName.chars_injective : Function.Injective MemberName.chars := by
  rintro ⟨cs, h⟩ ⟨ds, h'⟩ he
  obtain rfl : cs = ds := he
  rfl

namespace Signature

instance : Std.TransCmp Signature.compare :=
  inferInstanceAs (Std.TransCmp (compareLex (compareOn fun s : Signature => s.owner.chars)
    (compareLex (compareOn rank) (compareOn words))))

theorem eq_of_rank_of_words {a b : Signature} (ho : a.owner = b.owner) (hr : a.rank = b.rank)
    (hw : a.words = b.words) : a = b := by
  obtain ⟨owner, m⟩ := a
  obtain ⟨owner', m'⟩ := b
  obtain rfl : owner = owner' := ho
  have hm : m = m' := by
    match m, m' with
    | none, none => rfl
    | none, some (.field _) | none, some (.method _ _) => cases hr
    | some (.field _), none | some (.method _ _), none => cases hr
    | some (.field _), some (.method _ _) | some (.method _ _), some (.field _) => cases hr
    | some (.field n), some (.field n') =>
      have hn := MemberName.chars_injective (List.singleton_inj.1 hw)
      rw [hn]
    | some (.method n ps), some (.method n' ps') =>
      obtain ⟨hn, hp⟩ := List.cons.inj hw
      have hn' := MemberName.chars_injective hn
      have hp' := (List.map_inj_right fun _ _ he => TypeName.chars_injective he).1 hp
      rw [hn', hp']
  rw [hm]

theorem eq_of_compare {a b : Signature} (h : a.compare b = .eq) : a = b := by
  simp only [Signature.compare, Owner.compare, Ordering.then_eq_eq, Std.LawfulEqCmp.compare_eq_iff_eq] at h
  obtain ⟨ho, hr, hw⟩ := h
  exact eq_of_rank_of_words (Owner.chars_injective ho) hr hw

end Signature

end ApiRules
