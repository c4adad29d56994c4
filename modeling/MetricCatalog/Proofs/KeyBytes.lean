/-!
# Keys by their bytes

Keys are compared character by character.  This orders them as the bytes of their
UTF-8 form do, since the form of a character with a smaller code point is smaller at
the first byte that differs.
-/

namespace MetricCatalog

/-- The bytes of the UTF-8 form. -/
def utf8Bytes (text : String) : List UInt8 := text.toUTF8.data.toList

theorem utf8Bytes_eq (text : String) :
    utf8Bytes text = text.toList.flatMap String.utf8EncodeChar := by
  have hbytes : text.toByteArray = text.toList.utf8Encode := by
    rw [← String.toByteArray_ofList, String.ofList_toList]
  rw [utf8Bytes, String.toUTF8_eq_toByteArray, hbytes, List.utf8Encode,
    List.toList_data_toByteArray]

/-! ## One character -/

theorem ofNat_cons_lt {a b : Nat} (ha : a < 256) (hb : b < 256) {xs ys : List UInt8} :
    UInt8.ofNat a :: xs < UInt8.ofNat b :: ys ↔ a < b ∨ (a = b ∧ xs < ys) := by
  have heq : UInt8.ofNat a = UInt8.ofNat b ↔ a = b := by
    rw [← UInt8.toNat_inj, UInt8.toNat_ofNat', UInt8.toNat_ofNat', Nat.mod_eq_of_lt ha,
      Nat.mod_eq_of_lt hb]
  rw [List.cons_lt_cons_iff, UInt8.ofNat_lt_iff_lt ha hb, heq]

/-- Numbers compare by their digits to the base 64, the highest first. -/
theorem digits_lt {m n : Nat} (h : m < n) :
    m / 262144 < n / 262144 ∨ m / 262144 = n / 262144 ∧
      (m / 4096 % 64 < n / 4096 % 64 ∨ m / 4096 % 64 = n / 4096 % 64 ∧
        (m / 64 % 64 < n / 64 % 64 ∨ m / 64 % 64 = n / 64 % 64 ∧ m % 64 < n % 64)) := by
  have hquotients (k : Nat) : k / 64 / 64 = k / 4096 ∧ k / 4096 / 64 = k / 262144 :=
    ⟨Nat.div_div_eq_div_mul k 64 64, Nat.div_div_eq_div_mul k 4096 64⟩
  obtain ⟨hm, hm'⟩ := hquotients m
  obtain ⟨hn, hn'⟩ := hquotients n
  have hlowest : m / 64 < n / 64 ∨ (m / 64 = n / 64 ∧ m % 64 < n % 64) := by omega
  have hmiddle : m / 4096 ≤ n / 4096 := by omega
  have hhighest : m / 262144 ≤ n / 262144 := by omega
  omega

/-- The first byte that differs decides, whatever follows. -/
theorem utf8EncodeChar_append_lt {c d : Char} (h : c < d) (xs ys : List UInt8) :
    String.utf8EncodeChar c ++ xs < String.utf8EncodeChar d ++ ys := by
  have hlt : c.val.toNat < d.val.toNat := h
  have hmax : d.val.toNat < 1114112 := by
    rcases d.valid with hlow | hhigh
    · have hlow : d.val.toNat < 55296 := hlow
      omega
    · exact hhigh.2
  unfold String.utf8EncodeChar
  generalize c.val.toNat = m, d.val.toNat = n at hlt hmax
  have hdigits := digits_lt hlt
  have htop (k : Nat) (hk : k < 1114112) : k / 262144 % 8 = k / 262144 := by omega
  have hm := htop m (by omega)
  have hn := htop n hmax
  dsimp only
  -- one case for each pair of lengths
  (repeat' split) <;>
    simp (disch := omega) only [List.cons_append, List.nil_append, ofNat_cons_lt] <;> omega

/-! ## Texts -/

theorem flatMap_utf8EncodeChar_lt {cs ds : List Char} (h : cs < ds) :
    cs.flatMap String.utf8EncodeChar < ds.flatMap String.utf8EncodeChar := by
  induction ds generalizing cs with
  | nil => exact absurd h (List.not_lt_nil _)
  | cons d ds ih =>
      cases cs with
      | nil =>
          obtain ⟨byte, bytes, hbytes⟩ :=
            List.exists_cons_of_ne_nil (String.utf8EncodeChar_ne_nil (c := d))
          rw [List.flatMap_nil, List.flatMap_cons, hbytes]
          exact List.nil_lt_cons ..
      | cons c cs =>
          rw [List.flatMap_cons, List.flatMap_cons]
          rcases List.cons_lt_cons_iff.1 h with hlt | ⟨rfl, hlt⟩
          · exact utf8EncodeChar_append_lt hlt _ _
          · exact List.append_left_lt (ih hlt)

theorem lt_iff_utf8Bytes_lt {a b : String} : a < b ↔ utf8Bytes a < utf8Bytes b := by
  have hmono {a b : String} (h : a < b) : utf8Bytes a < utf8Bytes b := by
    rw [utf8Bytes_eq, utf8Bytes_eq]
    exact flatMap_utf8EncodeChar_lt h
  refine ⟨hmono, fun h => String.not_le.1 fun hle => ?_⟩
  by_cases heq : b = a
  · subst heq
    exact List.lt_irrefl _ h
  · exact List.lt_asymm h (hmono (Std.lt_of_le_of_ne hle heq))

theorem le_iff_utf8Bytes_le {a b : String} : a ≤ b ↔ utf8Bytes a ≤ utf8Bytes b := by
  rw [← String.not_lt, lt_iff_utf8Bytes_lt, List.not_lt]

end MetricCatalog
