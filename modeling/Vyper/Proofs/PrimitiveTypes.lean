import Vyper.Editor.Completion
import Mathlib.Data.List.TakeWhile
import Mathlib.Tactic.Common

/-!
# Names of primitive types

The catalogue writes a width in digits; the test of a declared type reads it as a number. So the
test takes every name of the catalogue, and besides those the same names with a plus sign or zeros
in front of the width (`BaseType.Pads`), which nothing offers
(`BaseType.isName_iff_offered_or_padded`).
-/

namespace Vyper

/-! ### Digits -/

theorem digit_lt {c : Char} (h : c.isDigit = true) : c.toNat - '0'.toNat < 10 := by
  have hnine : '9'.toNat = 57 := rfl
  rw [Char.isDigit_iff_toNat] at h
  change c.toNat - 48 < 10
  omega

theorem toDigits_digit {c : Char} (h : c.isDigit = true) :
    Nat.toDigits 10 (c.toNat - '0'.toNat) = [c] := by
  rw [Nat.toDigits_of_lt_base (digit_lt h)]
  have hzero : '0'.toNat = 48 := rfl
  have hchar : Nat.digitChar (c.toNat - '0'.toNat) = c := by
    apply Char.toNat_inj.mp
    rw [Nat.toNat_digitChar_of_lt_ten (digit_lt h)]
    rw [Char.isDigit_iff_toNat] at h
    omega
  rw [hchar]

/-- Digits behind a number are more digits of a number. -/
theorem toDigits_append_digits {digits : List Char} (hdigits : ∀ c ∈ digits, c.isDigit = true)
    {n : Nat} (hn : 0 < n) :
    Nat.toDigits 10 n ++ digits =
      Nat.toDigits 10 (Nat.ofDigitChars 10 digits n) := by
  induction digits generalizing n with
  | nil => rw [List.append_nil]; rfl
  | cons c cs ih =>
    obtain ⟨hc, hcs⟩ := List.forall_mem_cons.mp hdigits
    have hnext := Nat.toDigits_append_toDigits (by decide) hn (digit_lt hc)
    rw [toDigits_digit hc] at hnext
    rw [Nat.ofDigitChars_cons, ← ih hcs (by omega), ← hnext, List.append_assoc]
    rfl

/-- Digits of a positive number are those it is written with, perhaps behind zeros. -/
theorem exists_zeros {digits : List Char} (hdigits : ∀ c ∈ digits, c.isDigit = true) {n : Nat}
    (hn : 0 < n) (hvalue : Nat.ofDigitChars 10 digits 0 = n) :
    ∃ zeros, (∀ c ∈ zeros, c = '0') ∧ digits = zeros ++ Nat.toDigits 10 n := by
  induction digits with
  | nil =>
    cases hvalue
    cases hn
  | cons c cs ih =>
    obtain ⟨hc, hcs⟩ := List.forall_mem_cons.mp hdigits
    by_cases hzero : c = '0'
    · subst hzero
      obtain ⟨zeros, hzeros, hdigits⟩ := ih hcs hvalue
      exact ⟨'0' :: zeros, by simpa using hzeros, congrArg _ hdigits⟩
    · have hpos : 0 < c.toNat - '0'.toNat := by
        have hne : c.toNat ≠ '0'.toNat := fun heq => hzero (Char.toNat_inj.mp heq)
        rw [Char.isDigit_iff_toNat] at hc
        omega
      refine ⟨[], by simp, ?_⟩
      rw [Nat.ofDigitChars_cons, Nat.mul_zero, Nat.zero_add] at hvalue
      rw [← hvalue, ← toDigits_append_digits hcs hpos, toDigits_digit hc]
      rfl

theorem ofDigitChars_zeros {zeros : List Char} (hzeros : ∀ c ∈ zeros, c = '0') (n : Nat) :
    Nat.ofDigitChars 10 (zeros ++ Nat.toDigits 10 n) 0 = n := by
  induction zeros with
  | nil => exact Nat.ofDigitChars_toDigits (by decide) (by decide)
  | cons c cs ih =>
    obtain ⟨rfl, hcs⟩ := List.forall_mem_cons.mp hzeros
    exact ih hcs

/-- Letters and what follows them are told apart in one way only. -/
theorem eq_of_letters {word word' rest rest' : List Char} (hword : ∀ c ∈ word, c.isAlpha = true)
    (hword' : ∀ c ∈ word', c.isAlpha = true) (hrest : ∀ c ∈ rest, c.isAlpha = false)
    (hrest' : ∀ c ∈ rest', c.isAlpha = false) (h : word ++ rest = word' ++ rest') :
    word = word' ∧ rest = rest' := by
  have htake : ∀ {w r : List Char}, (∀ c ∈ w, c.isAlpha = true) → (∀ c ∈ r, c.isAlpha = false) →
      (w ++ r).takeWhile Char.isAlpha = w := by
    intro w r hw hr
    rw [List.takeWhile_append_of_pos hw]
    cases r with
    | nil => simp
    | cons c cs => simp [hr c List.mem_cons_self]
  have heq : word = word' := by
    rw [← htake hword hrest, h, htake hword' hrest']
  subst heq
  exact ⟨rfl, List.append_cancel_left h⟩

namespace BaseType

/-! ### Widths -/

/-- What may stand in front of a width: zeros, perhaps behind a plus sign. -/
def IsPadding (padding : List Char) : Prop :=
  ∃ zeros, (∀ c ∈ zeros, c = '0') ∧ (padding = zeros ∨ padding = '+' :: zeros)

theorem isAlpha_of_isDigit {c : Char} (h : c.isDigit = true) : c.isAlpha = false := by
  have hnine : '9'.toNat = 57 := rfl
  have hval : c.val.toNat = c.toNat := rfl
  rw [Char.isDigit_iff_toNat] at h
  -- Digits come before all letters.
  have hbefore : ∀ first : UInt32, 57 < first.toNat → ¬ c.val ≥ first := by
    intro first hfirst
    rw [ge_iff_le, UInt32.le_iff_toNat_le]
    omega
  have hupper : c.isUpper = false :=
    decide_eq_false fun hupper => hbefore 'A'.val (by decide) hupper.1
  have hlower : c.isLower = false :=
    Bool.and_eq_false_iff.mpr (.inl (decide_eq_false (hbefore 'a'.val (by decide))))
  exact Bool.or_eq_false_iff.mpr ⟨hupper, hlower⟩

theorem IsPadding.isAlpha {padding : List Char} (h : IsPadding padding) :
    ∀ c ∈ padding, c.isAlpha = false := by
  obtain ⟨zeros, hzeros, rfl | rfl⟩ := h
  · intro c hc
    rw [hzeros c hc]
    rfl
  · refine List.forall_mem_cons.mpr ⟨rfl, fun c hc => ?_⟩
    rw [hzeros c hc]
    rfl

/-- What a width is written with. -/
theorem isDigit_toDigits {n : Nat} : ∀ c ∈ Nat.toDigits 10 n, c.isDigit = true :=
  fun _ => Nat.isDigit_of_mem_toDigits (by decide) (by decide)

theorem isDigit_zeros {zeros : List Char} (hzeros : ∀ c ∈ zeros, c = '0') {n : Nat} :
    ∀ c ∈ zeros ++ Nat.toDigits 10 n, c.isDigit = true := by
  refine List.forall_mem_append.mpr ⟨fun c hc => ?_, isDigit_toDigits⟩
  rw [hzeros c hc]
  rfl

/-- A positive width is read from its digits behind some padding, and from nothing else. -/
theorem width?_eq_some_iff {text : List Char} {n : Nat} (hn : 0 < n) :
    width? text = some n ↔ ∃ padding, IsPadding padding ∧ text = padding ++ Nat.toDigits 10 n := by
  have hread : ∀ digits : List Char, (if !digits.isEmpty && digits.all Char.isDigit then
      some (Nat.ofDigitChars 10 digits 0) else none) = some n ↔
      ∃ zeros, (∀ c ∈ zeros, c = '0') ∧ digits = zeros ++ Nat.toDigits 10 n := by
    intro digits
    constructor
    · intro h
      rw [Option.ite_none_right_eq_some, Bool.and_eq_true, List.all_eq_true, Option.some.injEq] at h
      exact exists_zeros h.1.2 hn h.2
    · rintro ⟨zeros, hzeros, rfl⟩
      rw [ofDigitChars_zeros hzeros, if_pos]
      rw [Bool.and_eq_true, List.all_eq_true]
      exact ⟨by simp [Nat.toDigits_ne_nil], isDigit_zeros hzeros⟩
  by_cases hplus : ∃ rest, text = '+' :: rest
  · obtain ⟨rest, rfl⟩ := hplus
    refine (hread rest).trans ⟨?_, ?_⟩
    · rintro ⟨zeros, hzeros, rfl⟩
      exact ⟨'+' :: zeros, ⟨zeros, hzeros, .inr rfl⟩, rfl⟩
    · rintro ⟨padding, ⟨zeros, hzeros, rfl | rfl⟩, heq⟩
      · cases isDigit_zeros hzeros '+' (heq ▸ List.mem_cons_self)
      · exact ⟨zeros, hzeros, (List.cons.inj heq).2⟩
  · have htext : width? text = if !text.isEmpty && text.all Char.isDigit then
        some (Nat.ofDigitChars 10 text 0) else none := by
      unfold width?
      split
      · next rest => exact absurd ⟨rest, rfl⟩ hplus
      · rfl
    rw [htext]
    refine (hread text).trans ⟨?_, ?_⟩
    · rintro ⟨zeros, hzeros, rfl⟩
      exact ⟨zeros, ⟨zeros, hzeros, .inl rfl⟩, rfl⟩
    · rintro ⟨padding, ⟨zeros, hzeros, rfl | rfl⟩, heq⟩
      · exact ⟨padding, hzeros, heq⟩
      · exact absurd ⟨_, heq⟩ hplus

/-! ### Words -/

/-- The words in front of a width, each with its widths. -/
def sized : List (String × List Nat) :=
  [("uint", bitWidths), ("int", bitWidths), ("bytes", byteWidths)]

/-- The names without a width. -/
def unsized : List String := ["bool", "address", "decimal"]

theorem exists_mem_sized {P : String × List Nat → Prop} : (∃ form ∈ sized, P form) ↔
    P ("uint", bitWidths) ∨ P ("int", bitWidths) ∨ P ("bytes", byteWidths) := by
  simp [sized]

theorem pos_of_mem_sized {form : String × List Nat} (h : form ∈ sized) {n : Nat} (hn : n ∈ form.2) :
    0 < n := by
  simp only [sized, List.mem_cons, List.not_mem_nil, or_false] at h
  obtain rfl | rfl | rfl := h
  all_goals
    obtain ⟨i, -, rfl⟩ := List.mem_map.mp hn
    omega

theorem isAlpha_of_mem_sized {form : String × List Nat} (h : form ∈ sized) :
    ∀ c ∈ form.1.toList, c.isAlpha = true := by
  simp only [sized, List.mem_cons, List.not_mem_nil, or_false] at h
  obtain rfl | rfl | rfl := h <;> simp

theorem isAlpha_of_mem_unsized {name : String} (h : name ∈ unsized) :
    ∀ c ∈ name.toList, c.isAlpha = true := by
  simp only [unsized, List.mem_cons, List.not_mem_nil, or_false] at h
  obtain rfl | rfl | rfl := h <;> simp

/-- A name of the catalogue has no width, or its digits right behind the word. -/
theorem mem_catalogue_iff {name : String} : name ∈ catalogue ↔ name ∈ unsized ∨
    ∃ form ∈ sized, ∃ n ∈ form.2, name.toList = form.1.toList ++ Nat.toDigits 10 n := by
  have hname : ∀ (word : String) (n : Nat), toString word ++ toString n = name ↔
      name.toList = word.toList ++ Nat.toDigits 10 n := by
    intro word n
    have hlist : (toString word ++ toString n).toList = word.toList ++ Nat.toDigits 10 n := by
      rw [String.toList_append]
      exact congrArg _ Nat.toList_repr
    rw [← hlist, String.toList_inj, eq_comm]
  simp only [catalogue, exists_mem_sized, List.mem_append, List.mem_map, hname, or_assoc]
  rfl

theorem after?_eq_some_iff {word : String} {text rest : List Char} :
    after? word text = some rest ↔ text = word.toList ++ rest := by
  rw [after?, Option.ite_none_right_eq_some, List.isPrefixOf_iff_prefix, ← String.length_toList,
    Option.some.injEq]
  constructor
  · rintro ⟨⟨more, rfl⟩, rfl⟩
    rw [List.drop_left]
  · rintro rfl
    exact ⟨List.prefix_append _ _, List.drop_left⟩

/-- The test takes a name without a width, or a number behind the word. -/
theorem isName_iff {name : String} : isName name = true ↔ name ∈ unsized ∨
    ∃ form ∈ sized, ∃ rest, after? form.1 name.toList = some rest ∧
      (width? rest).any form.2.contains = true := by
  rw [exists_mem_sized]
  unfold isName
  split
  · next hplain => exact iff_of_true rfl (.inl (by simpa [unsized] using hplain))
  · next hplain =>
    have hunsized : name ∉ unsized := by simpa [unsized] using hplain
    -- A name starts with at most one of the words.
    cases huint : after? "uint" name.toList with
    | some rest =>
      have hint : after? "int" name.toList = none := by rw [after?_eq_some_iff.mp huint]; rfl
      have hbytes : after? "bytes" name.toList = none := by rw [after?_eq_some_iff.mp huint]; rfl
      simp [hunsized, hint, hbytes]
    | none =>
      cases hint : after? "int" name.toList with
      | some rest =>
        have hbytes : after? "bytes" name.toList = none := by rw [after?_eq_some_iff.mp hint]; rfl
        simp [hunsized, hbytes]
      | none =>
        cases hbytes : after? "bytes" name.toList <;> simp [hunsized]

/-! ### Padded names -/

/-- A name is an entry of the catalogue with padding between its word and its width. -/
def Pads (entry name : String) : Prop :=
  ∃ word padding width, entry.toList = word ++ width ∧ name.toList = word ++ (padding ++ width) ∧
    (∀ c ∈ word, c.isAlpha = true) ∧ (∀ c ∈ width, c.isDigit = true) ∧ width ≠ [] ∧
    IsPadding padding ∧ padding ≠ []

/-- The test takes the names of the catalogue, with or without padding. -/
theorem isName_iff_padding {name : String} : isName name = true ↔ name ∈ unsized ∨
    ∃ form ∈ sized, ∃ n ∈ form.2, ∃ padding, IsPadding padding ∧
      name.toList = form.1.toList ++ (padding ++ Nat.toDigits 10 n) := by
  rw [isName_iff]
  refine or_congr_right (exists_congr fun form => and_congr_right fun hform => ?_)
  constructor
  · rintro ⟨rest, hrest, hwidth⟩
    obtain ⟨n, hwidth, hn⟩ := (Option.any_eq_true _ _).mp hwidth
    have hn : n ∈ form.2 := List.contains_iff_mem.mp hn
    obtain ⟨padding, hpadding, rfl⟩ := (width?_eq_some_iff (pos_of_mem_sized hform hn)).mp hwidth
    exact ⟨n, hn, padding, hpadding, after?_eq_some_iff.mp hrest⟩
  · rintro ⟨n, hn, padding, hpadding, hname⟩
    refine ⟨_, after?_eq_some_iff.mpr hname, ?_⟩
    rw [(width?_eq_some_iff (pos_of_mem_sized hform hn)).mpr ⟨padding, hpadding, rfl⟩]
    simpa using hn

theorem isName_of_mem_catalogue {name : String} (h : name ∈ catalogue) : isName name = true := by
  rw [isName_iff_padding]
  rcases mem_catalogue_iff.mp h with hplain | ⟨form, hform, n, hn, hname⟩
  · exact .inl hplain
  · exact .inr ⟨form, hform, n, hn, [], ⟨[], by simp, .inl rfl⟩, hname⟩

theorem not_mem_unsized {name : String} {word width : List Char} (h : name.toList = word ++ width)
    (hwidth : ∃ c ∈ width, c.isAlpha = false) : name ∉ unsized := by
  intro hplain
  obtain ⟨c, hc, halpha⟩ := hwidth
  rw [isAlpha_of_mem_unsized hplain c (h ▸ List.mem_append_right word hc)] at halpha
  cases halpha

/-- With padding in front, the digits of a number are no digits of a number. -/
theorem toDigits_ne_of_padding {padding : List Char} (h : IsPadding padding) (hne : padding ≠ [])
    (n k : Nat) : Nat.toDigits 10 k ≠ padding ++ Nat.toDigits 10 n := by
  intro heq
  obtain ⟨zeros, hzeros, rfl | rfl⟩ := h
  · have hvalue : k = n := by
      rw [← ofDigitChars_zeros hzeros n, ← heq]
      exact (Nat.ofDigitChars_toDigits (by decide) (by decide)).symm
    subst hvalue
    exact hne (List.append_left_eq_self.mp heq.symm)
  · have hplus : '+'.isDigit = true := isDigit_toDigits '+' (by rw [heq]; exact List.mem_cons_self)
    cases hplus

/-- What the test takes and the catalogue has not is a padded name of the catalogue. -/
theorem isName_and_not_mem_iff {name : String} :
    isName name = true ∧ name ∉ catalogue ↔ ∃ entry ∈ catalogue, Pads entry name := by
  constructor
  · rintro ⟨h, hnot⟩
    rcases isName_iff_padding.mp h with hplain | ⟨form, hform, n, hn, padding, hpadding, hname⟩
    · exact absurd (mem_catalogue_iff.mpr (.inl hplain)) hnot
    · let entry := String.ofList (form.1.toList ++ Nat.toDigits 10 n)
      have hentry : entry.toList = form.1.toList ++ Nat.toDigits 10 n := String.toList_ofList
      refine ⟨entry, mem_catalogue_iff.mpr (.inr ⟨form, hform, n, hn, hentry⟩),
        form.1.toList, padding,
        Nat.toDigits 10 n, hentry, hname, isAlpha_of_mem_sized hform, isDigit_toDigits,
        Nat.toDigits_ne_nil, hpadding, ?_⟩
      rintro rfl
      exact hnot (mem_catalogue_iff.mpr (.inr ⟨form, hform, n, hn, hname⟩))
  · rintro ⟨entry, hmem, word, padding, width, hentry, hname, hword, hwidth, hne, hpadding, hpadded⟩
    obtain ⟨c, hc⟩ := List.exists_mem_of_ne_nil width hne
    have hwidth : ∀ c ∈ width, c.isAlpha = false := fun c hc => isAlpha_of_isDigit (hwidth c hc)
    rcases mem_catalogue_iff.mp hmem with hplain | ⟨form, hform, n, hn, hform'⟩
    · exact absurd hplain (not_mem_unsized hentry ⟨c, hc, hwidth c hc⟩)
    have hdigits : ∀ k, ∀ c ∈ Nat.toDigits 10 k, c.isAlpha = false :=
      fun k c hc => isAlpha_of_isDigit (isDigit_toDigits c hc)
    obtain ⟨rfl, rfl⟩ := eq_of_letters hword (isAlpha_of_mem_sized hform) hwidth (hdigits n)
      (hentry.symm.trans hform')
    have hrest := List.forall_mem_append.mpr ⟨hpadding.isAlpha, hwidth⟩
    refine ⟨isName_iff_padding.mpr (.inr ⟨form, hform, n, hn, padding, hpadding, hname⟩),
      fun hoffered => ?_⟩
    rcases mem_catalogue_iff.mp hoffered with hplain | ⟨other, hother, k, -, hother'⟩
    · exact not_mem_unsized hname ⟨c, List.mem_append_right padding hc, hwidth c hc⟩ hplain
    · have hsame := eq_of_letters (isAlpha_of_mem_sized hother) hword (hdigits k) hrest
        (hother'.symm.trans hname)
      exact toDigits_ne_of_padding hpadding hpadded n k hsame.2

end BaseType

/-! ### Accepted and offered types -/

/-- Of the types that completion offers, the primitive ones are the catalogue. -/
theorem Analysis.labels_typeItems (a : Analysis) (leadingSpace : Bool) :
    ((a.typeItems leadingSpace).filter (·.kind = .typeParameter)).map (·.label) =
      BaseType.catalogue := by
  have hkinds : ∀ (kind : CompletionKind) (names : List String),
      (((names.map (Completion.item kind)).map fun i =>
        { i with insertText := if leadingSpace then some (" " ++ i.label) else none }).filter
          fun i => i.kind = .typeParameter).map (·.label) =
        if kind = .typeParameter then names else [] := by
    intro kind names
    rw [List.map_map, List.filter_map, List.map_map]
    by_cases hkind : kind = .typeParameter <;> simp [Function.comp_def, Completion.item, hkind]
  rw [typeItems, List.map_append, List.filter_append, List.map_append, hkinds, hkinds]
  rfl

theorem Annotate.checkType_name {m : ModuleType} {text : List Char} {span : Span} {name : String} :
    checkType m text (.name span name) = .ok () ↔ knowsType m name = true := by
  rw [checkType]
  split <;> simp_all

/-- The test of a declared type takes every name of the catalogue, and besides those exactly the
names of the catalogue with padding in front of the width. Completion offers the catalogue. So a
name is accepted as a type if it is offered or padded, or known for another reason. -/
theorem BaseType.isName_iff_offered_or_padded (name : String) :
    (name ∈ catalogue → isName name = true) ∧
    (isName name = true ∧ name ∉ catalogue ↔ ∃ entry ∈ catalogue, Pads entry name) ∧
    ∀ (a : Analysis) (leadingSpace : Bool) (m : ModuleType) (text : List Char) (span : Span),
      let offered := ((a.typeItems leadingSpace).filter (·.kind = .typeParameter)).map (·.label)
      offered = catalogue ∧
      (Annotate.checkType m text (.name span name) = .ok () ↔
        name ∈ offered ∨ (∃ entry ∈ offered, Pads entry name) ∨ name ∈ Annotate.constructors ∨
        (m.struct? name).isSome ∨ (m.flag? name).isSome ∨ (m.interface? name).isSome ∨
        (m.import? name).isSome) := by
  refine ⟨isName_of_mem_catalogue, isName_and_not_mem_iff, fun a leadingSpace m text span => ?_⟩
  intro offered
  have hoffered : offered = catalogue := a.labels_typeItems leadingSpace
  have hname : isName name = true ↔ name ∈ catalogue ∨ ∃ entry ∈ catalogue, Pads entry name := by
    rw [← isName_and_not_mem_iff]
    by_cases hmem : name ∈ catalogue
    · exact iff_of_true (isName_of_mem_catalogue hmem) (.inl hmem)
    · simp [hmem]
  refine ⟨hoffered, ?_⟩
  rw [Annotate.checkType_name, hoffered, ← or_assoc, ← hname]
  simp only [Annotate.knowsType, Bool.or_eq_true, List.contains_iff_mem, or_assoc]

/-- A padded name is accepted, though nothing offers it. -/
theorem BaseType.isName_padded :
    ¬ ∀ name, isName name = true ↔ name ∈ catalogue := by
  intro h
  have hmem : "uint008" ∈ catalogue := (h "uint008").mp (by decide +kernel)
  exact absurd hmem (by decide +kernel)

end Vyper
