import Mathlib.Tactic.SplitIfs

/-!
# Texts in the order of their bytes

Texts are ordered by code point. In UTF-8 a greater character has greater bytes: more bytes begin
with a greater one, and as many bytes are the digits of the code point to the base 64. So the
order of texts is the order of their bytes, and a list of texts that is sorted by one is sorted by
the other.

* `utf8Encode_lt`: the bytes of a smaller character, whatever follows them.
* `bytes_lt_iff`: the order of texts and the order of their bytes.
* `mergeSort_bytes`: sorted texts are in the order of their bytes.
-/

namespace AccessGuard

/-- The bytes of a text in UTF-8. -/
def bytes (text : String) : List UInt8 := text.toUTF8.data.toList

theorem bytes_eq_flatMap (text : String) :
    bytes text = text.toList.flatMap String.utf8EncodeChar := by
  obtain ⟨cs, rfl⟩ : ∃ cs, text = String.ofList cs := ⟨text.toList, String.ofList_toList.symm⟩
  rw [bytes, String.toUTF8, String.toByteArray_ofList, List.utf8Encode,
    List.toList_data_toByteArray, String.toList_ofList]

/-- **A smaller character has smaller bytes**, and the bytes of neither begin those of the other,
so what follows does not matter. -/
theorem utf8Encode_lt {c d : Char} (h : c < d) (r s : List UInt8) :
    String.utf8EncodeChar c ++ r < String.utf8EncodeChar d ++ s := by
  have hlt : c.val.toNat < d.val.toNat := UInt32.lt_iff_toNat_lt.1 h
  have hd : d.val.toNat < 1114112 := by rcases d.valid with hd | hd <;> omega
  have byte_lt {a b : Nat} (ha : a < 256) (hb : b < 256) :
      UInt8.ofNat a < UInt8.ofNat b ↔ a < b := by
    rw [UInt8.lt_iff_toNat_lt]; simp; omega
  have byte_eq {a b : Nat} (ha : a < 256) (hb : b < 256) :
      UInt8.ofNat a = UInt8.ofNat b ↔ a = b := by
    rw [← UInt8.toNat_inj]; simp; omega
  unfold String.utf8EncodeChar
  dsimp only
  generalize c.val.toNat = m at hlt
  generalize d.val.toNat = n at hlt hd
  -- digits to the base 64, each from the one before
  have hm₂ : m / 4096 = m / 64 / 64 := by omega
  have hm₃ : m / 262144 = m / 64 / 64 / 64 := by omega
  have hn₂ : n / 4096 = n / 64 / 64 := by omega
  have hn₃ : n / 262144 = n / 64 / 64 / 64 := by omega
  rw [hm₂, hm₃, hn₂, hn₃]
  clear hm₂ hm₃ hn₂ hn₃
  -- one case for each pair of lengths; in the first byte or in a later one the bytes differ
  split_ifs <;> simp (disch := omega) only [List.cons_append, List.cons_lt_cons_iff, byte_lt,
    byte_eq] <;> omega

theorem flatMap_utf8Encode_lt {cs ds : List Char} (h : cs < ds) :
    cs.flatMap String.utf8EncodeChar < ds.flatMap String.utf8EncodeChar := by
  induction cs generalizing ds with
  | nil =>
    cases ds with
    | nil => exact absurd h (List.lt_irrefl _)
    | cons d ds =>
      obtain ⟨b, bs, hd⟩ := List.exists_cons_of_ne_nil (String.utf8EncodeChar_ne_nil (c := d))
      rw [List.flatMap_nil, List.flatMap_cons, hd]
      exact List.nil_lt_cons b _
  | cons c cs ih =>
    cases ds with
    | nil => exact absurd h (List.not_lt_nil _)
    | cons d ds =>
      rw [List.flatMap_cons, List.flatMap_cons]
      rcases List.cons_lt_cons_iff.1 h with hlt | ⟨rfl, hlt⟩
      · exact utf8Encode_lt hlt _ _
      · exact List.append_left_lt (ih hlt)

/-- **The order of texts is the order of their bytes.** -/
theorem bytes_lt_iff {s t : String} : bytes s < bytes t ↔ s < t := by
  have mono {s t : String} (h : s < t) : bytes s < bytes t := by
    rw [bytes_eq_flatMap, bytes_eq_flatMap]
    exact flatMap_utf8Encode_lt h
  constructor
  · intro h
    rcases Std.lt_trichotomy s t with hlt | rfl | hgt
    · exact hlt
    · exact absurd h (List.lt_irrefl _)
    · exact absurd h (List.lt_asymm (mono hgt))
  · exact mono

theorem bytes_le_iff {s t : String} : bytes s ≤ bytes t ↔ s ≤ t := by
  rw [← List.not_lt, bytes_lt_iff, String.not_lt]

theorem isLE_compare_iff {s t : String} : (compare s t).isLE = true ↔ bytes s ≤ bytes t := by
  rw [bytes_le_iff]
  exact isLE_compareOfLessAndEq String.le_antisymm String.not_le String.le_total

theorem compare_eq_lt_iff {s t : String} : compare s t = .lt ↔ bytes s < bytes t := by
  rw [bytes_lt_iff]
  exact compareOfLessAndEq_eq_lt

/-- **Sorted texts are in the order of their bytes.** -/
theorem mergeSort_bytes (texts : List String) :
    (texts.mergeSort fun s t => (compare s t).isLE).Pairwise fun s t => bytes s ≤ bytes t := by
  have hsorted : (texts.mergeSort fun s t => (compare s t).isLE).Pairwise
      fun s t => (compare s t).isLE = true := by
    refine List.pairwise_mergeSort ?_ ?_ texts
    · intro r s t hrs hst
      exact Std.TransCmp.isLE_trans hrs hst
    · intro s t
      rw [Bool.or_eq_true, isLE_compare_iff, isLE_compare_iff]
      exact List.le_total _ _
  exact hsorted.imp isLE_compare_iff.1

end AccessGuard
