import P256Index.Registrar.Spelling

/-!
# Error texts and how a node spells them

A node answers a refused call with a message and the revert data in hex. The transport looks for a
revert in the lowered text, the classifiers after it look for the names and selectors of the
registry's errors in the text as it came. A name stands outside the data and does not change with
the case of its digits (`RecasedFrom.contains_word`), a selector stands inside and does: a class is
independent of the spelling exactly where no selector in the other case decides it
(`errorClass_recased`).
-/

namespace P256Index.Registrar

/-! ## Data inside a text -/

/-- What comes next continues hex data: a `0x` and digits come before it. The text so far is read
from its end. -/
def InData (before : List Char) : Prop := ['x', '0'] <+: before.dropWhile isAsciiHexdigit

instance : DecidablePred InData := fun _ => inferInstanceAs (Decidable (_ <+: _))

/-- The same text, up to the case of the digits inside its data, behind a text so far. -/
def RecasedFrom : List Char → List Char → List Char → Prop
  | _, [], [] => True
  | before, c :: s, d :: t =>
      (c = d ∨ InData before ∧ SameDigit c d) ∧ RecasedFrom (c :: before) s t
  | _, _, _ => False

instance RecasedFrom.decide : ∀ before s t, Decidable (RecasedFrom before s t)
  | _, [], [] => .isTrue trivial
  | before, c :: s, _ :: t =>
      have := RecasedFrom.decide (c :: before) s t
      inferInstanceAs (Decidable (_ ∧ _))
  | _, [], _ :: _ => .isFalse id
  | _, _ :: _, [] => .isFalse id

def Recased (a b : String) : Prop := RecasedFrom [] a.toList b.toList

instance (a b : String) : Decidable (Recased a b) := inferInstanceAs (Decidable (RecasedFrom ..))

/-! ## The transport -/

/-- `format!("{message} {detail}")`: what the node says, and its data as JSON. -/
def nodeText (message detail : String) : String := s!"{message} {detail}"

/-- The end of `call_on`: an error of the node, by its text. -/
def rpcError (text : String) : ChainError :=
  if isRevert text then .reverted text else .rejected text

def errorClass (text : String) : ErrorClass := classifyChainError (rpcError text)

/-! ## What a change of case keeps -/

theorem SameDigit.isAsciiHexdigit_eq {c d : Char} (h : SameDigit c d) :
    isAsciiHexdigit c = isAsciiHexdigit d := by
  obtain rfl | ⟨-, hvalue⟩ := h
  · rfl
  · rw [isAsciiHexdigit, isAsciiHexdigit, hvalue]

theorem SameDigit.eq_of_not {c d : Char} (h : SameDigit c d) (hc : isAsciiHexdigit c = false) :
    d = c := by
  obtain rfl | ⟨hdigit, -⟩ := h
  · rfl
  · rw [isAsciiHexdigit, hdigit] at hc
    cases hc

theorem SameDigit.eq_zero {d : Char} (h : SameDigit '0' d) : d = '0' := by
  obtain rfl | ⟨-, hvalue⟩ := h
  · rfl
  · exact Hex.eq_zero_of_value hvalue.symm

theorem SameDigit.toLower_eq {c d : Char} (h : SameDigit c d) : c.toLower = d.toLower := by
  obtain rfl | ⟨hdigit, hvalue⟩ := h
  · rfl
  · obtain ⟨n, hn⟩ := Option.isSome_iff_exists.mp hdigit
    rw [Hex.toLower_of_value hn, Hex.toLower_of_value (hvalue ▸ hn)]

theorem sameDigits_lower {a b : List Char} (h : List.Forall₂ SameDigit a b) :
    a.map Char.toLower = b.map Char.toLower := by
  induction h with
  | nil => rfl
  | cons hcd _ ih => rw [List.map_cons, List.map_cons, hcd.toLower_eq, ih]

theorem sameDigits_dropWhile {a b : List Char} (h : List.Forall₂ SameDigit a b) :
    List.Forall₂ SameDigit (a.dropWhile isAsciiHexdigit) (b.dropWhile isAsciiHexdigit) := by
  induction h with
  | nil => exact .nil
  | cons hcd htail ih =>
      rw [List.dropWhile_cons, List.dropWhile_cons, hcd.isAsciiHexdigit_eq]
      split
      · exact ih
      · exact .cons hcd htail

/-- The marker has no digit that comes in two cases, so it stays where it is. -/
theorem InData.recased {a b : List Char} (hab : List.Forall₂ SameDigit a b) (h : InData a) :
    InData b := by
  obtain ⟨rest, hrest⟩ := h
  have hdrop := sameDigits_dropWhile hab
  rw [← hrest] at hdrop
  obtain ⟨x, xs, hx, hxs, hb⟩ := List.forall₂_cons_left_iff.mp hdrop
  obtain ⟨o, os, ho, -, rfl⟩ := List.forall₂_cons_left_iff.mp hxs
  rw [InData, hb, hx.eq_of_not (by decide), ho.eq_zero]
  exact List.prefix_append ['x', '0'] os

namespace RecasedFrom

theorem sameDigits {s t : List Char} :
    ∀ {before : List Char}, RecasedFrom before s t → List.Forall₂ SameDigit s t := by
  induction s generalizing t with
  | nil => cases t <;> simp [RecasedFrom]
  | cons c s ih =>
      intro before h
      cases t with
      | nil => cases h
      | cons d t => exact .cons (h.1.elim .inl And.right) (ih h.2)

theorem symm {s t before before' : List Char} (hbefore : List.Forall₂ SameDigit before before')
    (h : RecasedFrom before s t) : RecasedFrom before' t s := by
  induction s generalizing t before before' with
  | nil => cases t <;> simp_all [RecasedFrom]
  | cons c s ih =>
      cases t with
      | nil => cases h
      | cons d t =>
          obtain ⟨hcd, htail⟩ := h
          have hsame : SameDigit c d := hcd.elim .inl And.right
          refine ⟨?_, ih (.cons hsame hbefore) htail⟩
          exact hcd.imp Eq.symm fun ⟨hdata, h⟩ => ⟨hdata.recased hbefore, h.symm⟩

theorem split {a s : List Char} : ∀ {before t : List Char}, RecasedFrom before (a ++ s) t →
    ∃ a' s', t = a' ++ s' ∧ RecasedFrom (a.reverse ++ before) s s' := by
  induction a with
  | nil => exact fun {_ t} h => ⟨[], t, rfl, h⟩
  | cons c a ih =>
      intro before t h
      cases t with
      | nil => cases h
      | cons d t =>
          obtain ⟨a', s', rfl, htail⟩ := ih h.2
          refine ⟨d :: a', s', rfl, ?_⟩
          rw [List.reverse_cons, List.append_assoc]
          exact htail

/-- Outside of data, a run of characters without an `x` is copied. -/
theorem copies {p s : List Char} (hx : 'x' ∉ p) : ∀ {before t : List Char}, ¬ InData before →
    RecasedFrom before (p ++ s) t → p <+: t := by
  induction p with
  | nil => exact fun _ _ => List.nil_prefix
  | cons c p ih =>
      intro before t hout h
      cases t with
      | nil => cases h
      | cons d t =>
          obtain rfl : c = d := h.1.resolve_right fun hin => hout hin.1
          have hnext : ¬ InData (c :: before) := by
            rw [InData, List.dropWhile_cons]
            split
            · exact hout
            · intro hin
              obtain ⟨rest, hrest⟩ := hin
              exact hx (List.mem_cons.mpr (.inl (List.cons.inj hrest).1))
          obtain ⟨rest, hrest⟩ := ih (fun hmem => hx (List.mem_cons_of_mem c hmem)) hnext h.2
          exact ⟨rest, congrArg (List.cons c) hrest⟩

end RecasedFrom

/-! ## Names and selectors in a text -/

theorem contains_iff {value pattern : String} :
    contains value pattern = true ↔ ∃ a s, value.toList = a ++ (pattern.toList ++ s) := by
  simp only [contains, List.any_eq_true, List.mem_tails, List.isPrefixOf_iff_prefix]
  constructor
  · rintro ⟨t, ⟨a, ha⟩, ⟨s, hs⟩⟩
    exact ⟨a, s, by rw [hs, ha]⟩
  · rintro ⟨a, s, h⟩
    exact ⟨pattern.toList ++ s, ⟨a, h.symm⟩, List.prefix_append _ _⟩

/-- A word that data cannot reach into: it starts with no digit and has no `x`. -/
def Word (w : String) : Prop :=
  w.toList.head?.all (fun c => !isAsciiHexdigit c) = true ∧ 'x' ∉ w.toList

instance (w : String) : Decidable (Word w) := inferInstanceAs (Decidable (_ ∧ _))

theorem RecasedFrom.word {c : Char} {p s before t : List Char} (hc : isAsciiHexdigit c = false)
    (hx : 'x' ∉ c :: p) (h : RecasedFrom before (c :: p ++ s) t) : c :: p <+: t := by
  cases t with
  | nil => cases h
  | cons d t =>
      obtain ⟨hcd, htail⟩ := h
      obtain rfl : d = c := SameDigit.eq_of_not (hcd.elim .inl And.right) hc
      have hout : ¬ InData (d :: before) := by
        rw [InData, List.dropWhile_cons, if_neg (by simp [hc])]
        intro hin
        obtain ⟨rest, hrest⟩ := hin
        exact hx (List.mem_cons.mpr (.inl (List.cons.inj hrest).1))
      obtain ⟨rest, hrest⟩ := copies (fun hmem => hx (List.mem_cons_of_mem d hmem)) hout htail
      exact ⟨rest, congrArg (List.cons d) hrest⟩

namespace Recased

variable {a b w : String}

theorem symm (h : Recased a b) : Recased b a := RecasedFrom.symm .nil h

theorem contains_of_word (h : Recased a b) (hw : Word w) (ha : contains a w = true) :
    contains b w = true := by
  obtain ⟨before, after, htext⟩ := contains_iff.mp ha
  rw [Recased, htext] at h
  obtain ⟨before', after', hb, htail⟩ := RecasedFrom.split h
  obtain ⟨hhead, hx⟩ := hw
  rw [contains_iff]
  cases hp : w.toList with
  | nil => exact ⟨[], b.toList, rfl⟩
  | cons c p =>
      rw [hp] at htail hhead hx
      obtain ⟨rest, hrest⟩ := htail.word (by simpa using hhead) hx
      exact ⟨before', rest, by rw [hb, hrest]⟩

/-- Names are found in both spellings or in neither. -/
theorem contains_word (h : Recased a b) (hw : Word w) : contains b w = contains a w :=
  Bool.eq_iff_iff.mpr ⟨h.symm.contains_of_word hw, h.contains_of_word hw⟩

theorem toAsciiLowercase_eq (h : Recased a b) : toAsciiLowercase b = toAsciiLowercase a := by
  rw [toAsciiLowercase, toAsciiLowercase, sameDigits_lower (RecasedFrom.sameDigits h)]

/-- The transport folds the case, selectors included. -/
theorem isRevert_eq (h : Recased a b) : isRevert b = isRevert a := by
  rw [isRevert, isRevert, h.toAsciiLowercase_eq]

end Recased

/-! ## Classes -/

/-- The text names a write that exists, by a selector in the case of the source or by a name that
data can reach into. -/
def namesExisting (text : String) : Bool :=
  contains text selectorGroupKeyAlreadyUsed || contains text "AlreadyReferenced" ||
    contains text selectorAlreadyReferenced

theorem errorClass_eq (text : String) : errorClass text =
    if contains text "GroupKeyAlreadyUsed" || namesExisting text then .alreadyExists
    else if contains text "GroupNotFound" || contains text selectorGroupNotFound ||
        (!isRevert text && !contains text "InvalidProof") then .transient
    else .poison := by
  unfold errorClass classifyChainError rpcError namesExisting
  cases hrevert : isRevert text <;>
    simp only [isAlreadyExistsError, isGroupNotFoundError, isTransient, hrevert, Bool.false_eq_true,
      if_false, if_true]
  · cases contains text "GroupKeyAlreadyUsed" <;> cases contains text "AlreadyReferenced" <;> simp
  · simp [Bool.or_assoc]

/-- The class is the same in both spellings exactly if the selectors that decide it are: those of a
write that exists, and, where neither spelling has one of them, the one of a missing group, unless
its name or a text without a revert decides. -/
theorem errorClass_recased {a b : String} (h : Recased a b) :
    errorClass b = errorClass a ↔
      contains a "GroupKeyAlreadyUsed" = true ∨
        namesExisting b = namesExisting a ∧
          (namesExisting a = true ∨ contains a "GroupNotFound" = true ∨
            contains b selectorGroupNotFound = contains a selectorGroupNotFound ∨
              isRevert a = false ∧ contains a "InvalidProof" = false) := by
  rw [errorClass_eq, errorClass_eq, h.isRevert_eq,
    h.contains_word (w := "GroupKeyAlreadyUsed") (by decide +kernel),
    h.contains_word (w := "GroupNotFound") (by decide +kernel),
    h.contains_word (w := "InvalidProof") (by decide +kernel)]
  generalize contains a "GroupKeyAlreadyUsed" = used
  generalize contains a "GroupNotFound" = missing
  generalize contains a "InvalidProof" = invalid
  generalize isRevert a = revert
  generalize namesExisting a = existing
  generalize namesExisting b = existing'
  generalize contains a selectorGroupNotFound = selector
  generalize contains b selectorGroupNotFound = selector'
  cases used <;> cases existing <;> cases existing' <;> grind

theorem errorClass_recased_unknown :
    errorClass (nodeText "execution reverted" "\"0xDEADBEEF\"") =
      errorClass (nodeText "execution reverted" "\"0xdeadbeef\"") := by
  have hrecased : Recased (nodeText "execution reverted" "\"0xdeadbeef\"")
      (nodeText "execution reverted" "\"0xDEADBEEF\"") := by decide +kernel
  exact (errorClass_recased hrecased).mpr (by decide +kernel)

/-- The same revert data in the other case: a write that is already there, and a refer that only has
to wait, are taken for poison. -/
theorem errorClass_upper_selector :
    (Recased (nodeText "execution reverted" "\"0x10eafb1a\"")
      (nodeText "execution reverted" "\"0x10EAFB1A\"") ∧
      errorClass (nodeText "execution reverted" "\"0x10eafb1a\"") = .alreadyExists ∧
        errorClass (nodeText "execution reverted" "\"0x10EAFB1A\"") = .poison) ∧
    (Recased (nodeText "execution reverted" "\"0xdec308b4\"")
      (nodeText "execution reverted" "\"0xDEC308B4\"") ∧
      errorClass (nodeText "execution reverted" "\"0xdec308b4\"") = .transient ∧
        errorClass (nodeText "execution reverted" "\"0xDEC308B4\"") = .poison) := by
  decide +kernel

end P256Index.Registrar
