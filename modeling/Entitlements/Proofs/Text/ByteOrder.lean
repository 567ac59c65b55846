import Entitlements.Text.Utf8
import Mathlib.Data.List.Lex
import Mathlib.Tactic.SplitIfs

/-! # The order of bytes

Texts are compared character by character. Their bytes in UTF-8 stand in the same order
(`precedes_of_lt`): a greater character has a greater byte at the first place where the two
encodings differ, and neither encoding goes on where the other ends. -/

namespace Entitlements

/-- Bytes are compared by the first one, and by the rest if it is the same. -/
theorem ofNat_cons_lt {a b : Nat} (h : a ≤ b) (hb : b < 256) {xs ys : List UInt8}
    (hrest : a = b → xs < ys) : UInt8.ofNat a :: xs < UInt8.ofNat b :: ys := by
  rw [List.cons_lt_cons_iff, UInt8.lt_iff_toNat_lt, UInt8.toNat_ofNat', UInt8.toNat_ofNat']
  rcases Nat.lt_or_eq_of_le h with hlt | rfl
  · exact .inl (by omega)
  · exact .inr ⟨rfl, hrest rfl⟩

/-- **A smaller character** has the smaller bytes, whatever follows. -/
theorem utf8EncodeChar_append_lt {c d : Char} (h : c < d) (xs ys : List UInt8) :
    String.utf8EncodeChar c ++ xs < String.utf8EncodeChar d ++ ys := by
  have hlt : c.val.toNat < d.val.toNat := h
  have hd : d.val.toNat < 0xD800 ∨ 0xDFFF < d.val.toNat ∧ d.val.toNat < 0x110000 := d.valid
  unfold String.utf8EncodeChar
  generalize c.val.toNat = v, d.val.toNat = w at hlt hd
  dsimp only
  split_ifs
  all_goals simp only [List.cons_append, List.nil_append]
  all_goals try omega
  -- The first byte grows with the length, so that equal first bytes mean equal lengths.
  all_goals refine ofNat_cons_lt (by omega) (by omega) fun h₁ => ?_
  all_goals try omega
  -- The other bytes are the digits of the character.
  all_goals refine ofNat_cons_lt (by omega) (by omega) fun h₂ => ?_
  all_goals try omega
  all_goals refine ofNat_cons_lt (by omega) (by omega) fun h₃ => ?_
  all_goals try omega
  exact ofNat_cons_lt (by omega) (by omega) fun h₄ => by omega

/-- The order of texts by their bytes. -/
def Precedes (s t : String) : Prop := bytesOfText s < bytesOfText t

instance : Std.Irrefl Precedes := ⟨fun s => List.lt_irrefl (bytesOfText s)⟩

instance : Std.Antisymm Precedes := ⟨fun _ _ h h' => absurd h' (List.lt_asymm h)⟩

/-- **A smaller text** has the smaller bytes. -/
theorem precedes_of_lt {s t : String} (h : s < t) : Precedes s t := by
  rw [String.lt_iff] at h
  unfold Precedes bytesOfText
  generalize s.toList = cs, t.toList = ds at h
  induction h with
  | @nil d ds =>
    rw [List.flatMap_nil, List.flatMap_cons]
    obtain ⟨b, bs, hb⟩ := List.exists_cons_of_ne_nil (String.utf8EncodeChar_ne_nil (c := d))
    rw [hb]
    exact List.nil_lt_cons _ _
  | rel h => exact utf8EncodeChar_append_lt h _ _
  | cons _ ih => exact List.append_left_lt ih

end Entitlements
