import Mathlib.Data.List.Lex
import Mathlib.Data.String.Basic

/-!
# The order of texts by their bytes

Names and paths are put in the order of texts, which compares characters. This is the order of their
UTF-8 bytes: a character with a larger code has a larger first byte, or the same number of bytes
with a larger one where they first differ.

## Main definitions

* `Text.bytes`: the bytes of a text.
* `Text.ByteOrdered`: a text is not after another one when their bytes are compared.

## Main results

* `Text.bytesBefore_encode`: characters are in the order of their bytes, whatever follows.
* `Text.byteOrdered_iff`: texts are in the order of their bytes.
-/

namespace Typings.Text

/-- Whether bytes come before others: at the first difference, or by being the beginning of them. -/
def BytesBefore (as bs : List UInt8) : Prop :=
  List.Lex (fun a b => a.toNat < b.toNat) as bs

/-- The bytes of a text. -/
def bytes (s : String) : List UInt8 :=
  s.toUTF8.data.toList

/-- Whether a text is not after another one by their bytes. -/
def ByteOrdered (s t : String) : Prop :=
  s = t ∨ BytesBefore (bytes s) (bytes t)

theorem bytes_eq_flatMap (s : String) : bytes s = s.toList.flatMap String.utf8EncodeChar := by
  unfold bytes
  conv_lhs => rw [String.toUTF8_eq_toByteArray, ← String.ofList_toList (s := s),
    String.toByteArray_ofList]
  simp [List.utf8Encode]

/-! ## Characters -/

theorem toNat_val_lt (c : Char) : c.val.toNat < 0x110000 := by
  have hvalid := c.valid
  unfold UInt32.isValidChar Nat.isValidChar at hvalid
  omega

theorem bytesBefore_cons_iff {m n : Nat} (hm : m < 256) (hn : n < 256) {as bs : List UInt8} :
    BytesBefore (UInt8.ofNat m :: as) (UInt8.ofNat n :: bs) ↔
      m < n ∨ m = n ∧ BytesBefore as bs := by
  unfold BytesBefore
  rw [List.cons_lex_cons_iff, ← UInt8.toNat_inj, UInt8.toNat_ofNat', UInt8.toNat_ofNat',
    Nat.mod_eq_of_lt hm, Nat.mod_eq_of_lt hn]

/-- The bytes of a character come before those of a larger one, whatever follows. -/
theorem bytesBefore_encode {c d : Char} (h : c < d) (as bs : List UInt8) :
    BytesBefore (String.utf8EncodeChar c ++ as) (String.utf8EncodeChar d ++ bs) := by
  have hlt : c.val.toNat < d.val.toNat := h
  have hc := toNat_val_lt c
  have hd := toNat_val_lt d
  have htwo : ∀ n, n / 4096 = n / 64 / 64 := fun n => by rw [Nat.div_div_eq_div_mul]
  have hthree : ∀ n, n / 262144 = n / 64 / 64 / 64 := fun n => by
    rw [Nat.div_div_eq_div_mul, Nat.div_div_eq_div_mul]
  unfold String.utf8EncodeChar
  simp only [htwo, hthree]
  generalize c.val.toNat = m at *
  generalize d.val.toNat = n at *
  split_ifs <;>
    simp (disch := omega) only [List.cons_append, List.nil_append, bytesBefore_cons_iff] <;> omega

/-! ## Texts -/

theorem bytesBefore_flatMap {cs ds : List Char} (h : cs < ds) :
    BytesBefore (cs.flatMap String.utf8EncodeChar) (ds.flatMap String.utf8EncodeChar) := by
  induction h with
  | @nil d ds =>
    obtain ⟨b, bs, hbytes⟩ := List.exists_cons_of_ne_nil (String.utf8EncodeChar_ne_nil (c := d))
    rw [List.flatMap_cons, hbytes]
    exact .nil
  | rel h => exact bytesBefore_encode h _ _
  | @cons c _ _ _ ih => exact .append_left _ ih (String.utf8EncodeChar c)

/-- Texts are in the order of their bytes. -/
theorem byteOrdered_iff {s t : String} : ByteOrdered s t ↔ s ≤ t := by
  unfold ByteOrdered
  rw [bytes_eq_flatMap, bytes_eq_flatMap]
  constructor
  · rintro (rfl | hbefore) hlt
    · exact String.lt_irrefl s hlt
    · exact List.lex_asymm Nat.lt_asymm hbefore (bytesBefore_flatMap hlt)
  · intro hle
    rcases eq_or_lt_of_le hle with heq | hlt
    · exact .inl heq
    · exact .inr (bytesBefore_flatMap hlt)

end Typings.Text
