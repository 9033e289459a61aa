import Almyty.Lib.JsPath

/-!
# The order of an object's keys

A JavaScript object lists the keys that are integers first, by their value, and the others in the
order they were added; keys are sorted by their UTF-16 code units. Both orders tell distinct keys
apart: a text is known by its code units (`codeUnits_injective`), and an integer key by its value
(`arrayIndex_injective`).
-/

namespace Almyty.Lib.Js

open Option

/-! ## Code units -/

theorem charUnits_append_inj {c d : Char} {r s : List Nat}
    (h : charUnits c ++ r = charUnits d ++ s) : c = d ∧ r = s := by
  -- a unit of a pair is no character by itself
  have hvalid (e : Char) : e.toNat < 0xd800 ∨ (0xdfff < e.toNat ∧ e.toNat < 0x110000) := e.valid
  have hback {e f : Char} (hef : e.toNat = f.toNat) : e = f := by
    rw [← Char.ofNat_toNat e, hef, Char.ofNat_toNat]
  have hc := hvalid c
  have hd := hvalid d
  unfold charUnits at h
  split at h
  · split at h
    · obtain ⟨hhead, hrest⟩ := List.cons.inj h
      exact ⟨hback hhead, hrest⟩
    · have hhead := (List.cons.inj h).1
      omega
  · split at h
    · have hhead := (List.cons.inj h).1
      omega
    · obtain ⟨hhigh, hrest⟩ := List.cons.inj h
      obtain ⟨hlow, hrest⟩ := List.cons.inj hrest
      exact ⟨hback (by omega), hrest⟩

theorem codeUnits_injective {a b : String} (h : codeUnits a = codeUnits b) : a = b := by
  suffices hchars : ∀ x y : List Char, x.flatMap charUnits = y.flatMap charUnits → x = y from
    String.toList_injective (hchars _ _ h)
  have hne (c : Char) (r : List Nat) : charUnits c ++ r ≠ [] := by
    unfold charUnits
    split <;> simp
  intro x
  induction x with
  | nil =>
    intro y hy
    cases y with
    | nil => rfl
    | cons d y => exact absurd hy.symm (hne d _)
  | cons c x ih =>
    intro y hy
    cases y with
    | nil => exact absurd hy (hne c _)
    | cons d y =>
      rw [List.flatMap_cons, List.flatMap_cons] at hy
      obtain ⟨rfl, hrest⟩ := charUnits_append_inj hy
      rw [ih y hrest]

/-! ## Integer keys -/

def digitsValue (n : Nat) (digits : List Char) : Nat :=
  digits.foldl (fun n d => n * 10 + (d.toNat - '0'.toNat)) n

theorem digitsValue_concat (n : Nat) (digits : List Char) (d : Char) :
    digitsValue n (digits ++ [d]) = digitsValue n digits * 10 + (d.toNat - '0'.toNat) := by
  simp [digitsValue]

theorem le_digitsValue (n : Nat) (digits : List Char) : n ≤ digitsValue n digits := by
  induction digits generalizing n with
  | nil => exact Nat.le_refl n
  | cons d digits ih => exact Nat.le_trans (by omega) (ih (n * 10 + (d.toNat - '0'.toNat)))

theorem digit_toNat {d : Char} (h : d.isDigit = true) : 48 ≤ d.toNat ∧ d.toNat ≤ 57 := by
  simpa [Char.isDigit, UInt32.le_iff_toNat_le] using h

theorem digits_eq_nil {digits : List Char} (hdigits : digits.all Char.isDigit = true)
    (hlead : digits.head? ≠ some '0') (h : digitsValue 0 digits = 0) : digits = [] := by
  cases digits with
  | nil => rfl
  | cons d digits =>
    rw [List.all_cons, Bool.and_eq_true] at hdigits
    have hd := digit_toNat hdigits.1
    have hle := le_digitsValue (0 * 10 + (d.toNat - '0'.toNat)) digits
    have hvalue : digitsValue (0 * 10 + (d.toNat - '0'.toNat)) digits = 0 := h
    have hzero : d.toNat = '0'.toNat := by
      show d.toNat = 48
      have : '0'.toNat = 48 := rfl
      omega
    refine absurd ?_ hlead
    rw [List.head?_cons, ← Char.ofNat_toNat d, hzero, Char.ofNat_toNat]

theorem digits_inj {a b : List Char} (ha : a.all Char.isDigit = true)
    (hb : b.all Char.isDigit = true) (hleada : a.head? ≠ some '0') (hleadb : b.head? ≠ some '0')
    (h : digitsValue 0 a = digitsValue 0 b) : a = b := by
  induction a using List.reverseRecOn generalizing b with
  | nil => exact (digits_eq_nil hb hleadb h.symm).symm
  | append_singleton a d ih =>
    rcases List.eq_nil_or_concat b with rfl | ⟨b, e, hconcat⟩
    · exact digits_eq_nil ha hleada h
    · rw [List.concat_eq_append] at hconcat
      subst hconcat
      rw [List.all_append, Bool.and_eq_true, List.all_cons, List.all_nil, Bool.and_true] at ha hb
      rw [digitsValue_concat, digitsValue_concat] at h
      have hd := digit_toNat ha.2
      have he := digit_toNat hb.2
      have hzero : '0'.toNat = 48 := rfl
      have hlast : d = e := by
        rw [← Char.ofNat_toNat d, ← Char.ofNat_toNat e]
        congr 1
        omega
      have hfront (l : List Char) (c : Char) (hl : (l ++ [c]).head? ≠ some '0') :
          l.head? ≠ some '0' := by
        cases l with
        | nil => simp
        | cons x l => exact hl
      rw [hlast, ih ha.1 hb.1 (hfront a d hleada) (hfront b e hleadb) (by omega)]

theorem arrayIndex_injective {a b : String} {i : Nat} (ha : arrayIndex a = some i)
    (hb : arrayIndex b = some i) : a = b := by
  -- the text of an index: a zero, or digits that begin with another one
  have hread (key : String) (hkey : arrayIndex key = some i) :
      key.toList.all Char.isDigit = true ∧ digitsValue 0 key.toList = i ∧
        (key.toList = ['0'] ∨ key.toList ≠ [] ∧ key.toList.head? ≠ some '0') := by
    unfold arrayIndex at hkey
    cases hlist : key.toList with
    | nil =>
      rw [hlist] at hkey
      cases hkey
    | cons c cs =>
      rw [hlist] at hkey
      dsimp only at hkey
      split at hkey
      · next hcond =>
        rw [Bool.and_eq_true] at hcond
        refine ⟨hcond.1, some.inj hkey, ?_⟩
        by_cases hzero : c = '0'
        · subst hzero
          have hcs : cs = [] := by simpa using hcond.2
          exact .inl (by rw [hcs])
        · exact .inr ⟨List.cons_ne_nil _ _, fun hhead => hzero (some.inj hhead)⟩
      · cases hkey
  obtain ⟨hda, hva, hca⟩ := hread a ha
  obtain ⟨hdb, hvb, hcb⟩ := hread b hb
  have hpos (l : List Char) (hd : l.all Char.isDigit = true) (hne : l ≠ [])
      (hlead : l.head? ≠ some '0') : digitsValue 0 l ≠ 0 :=
    fun hv => hne (digits_eq_nil hd hlead hv)
  have hzero : digitsValue 0 ['0'] = 0 := rfl
  apply String.toList_injective
  rcases hca with hca | ⟨hnea, hleada⟩ <;> rcases hcb with hcb | ⟨hneb, hleadb⟩
  · rw [hca, hcb]
  · rw [hca, hzero] at hva
    exact absurd (hvb.trans hva.symm) (hpos _ hdb hneb hleadb)
  · rw [hcb, hzero] at hvb
    exact absurd (hva.trans hvb.symm) (hpos _ hda hnea hleada)
  · exact digits_inj hda hdb hleada hleadb (hva.trans hvb.symm)

theorem keyIndex_injective {a b : String} {i : Nat} (ha : keyIndex a = some i)
    (hb : keyIndex b = some i) : a = b :=
  arrayIndex_injective (filter_eq_some_iff.mp ha).1 (filter_eq_some_iff.mp hb).1

/-! ## Sorting entries -/

theorem insertionSort_eq_of_perm {α : Type} {r : α → α → Prop} [DecidableRel r] [Std.Total r]
    [IsTrans α r] {l l' : List α} (hanti : ∀ a ∈ l, ∀ b ∈ l, r a b → r b a → a = b)
    (h : l.Perm l') : l.insertionSort r = l'.insertionSort r := by
  have hl := List.perm_insertionSort r l
  have hl' := List.perm_insertionSort r l'
  refine List.Perm.eq_of_pairwise ?_ (List.pairwise_insertionSort r l)
    (List.pairwise_insertionSort r l') (hl.trans (h.trans hl'.symm))
  intro a b ha hb hab hba
  exact hanti a (hl.subset ha) b (h.symm.subset (hl'.subset hb)) hab hba

end Almyty.Lib.Js
