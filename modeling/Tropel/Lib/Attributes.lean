import Tropel.Lib.Text

/-!
# Attributes

A list of attributes `name="value"` with commas between them, as in the authorization headers of
some schemes.
-/

namespace Lib

open List Option Nat

def Plain (t : Text) : Prop := '"' ∉ t ∧ '\\' ∉ t

instance (t : Text) : Decidable (Plain t) := inferInstanceAs (Decidable (_ ∧ _))

def IsName (t : Text) : Prop := t ≠ [] ∧ t.all Char.isAlphanum = true

instance (t : Text) : Decidable (IsName t) := inferInstanceAs (Decidable (_ ∧ _))

def isBlankChar (c : Char) : Bool := c = ' ' || c = '\t'

def parseAttribute (t : Text) : Option ((Text × Text) × Text) := do
  let (name, rest) ← splitOnce '=' t
  match rest with
  | '"' :: rest =>
    let (value, rest) ← splitOnce '"' rest
    if IsName name ∧ '\\' ∉ value then return ((name, value), rest.dropWhile isBlankChar) else none
  | _ => none

def attributesFrom : ℕ → Text → Option (List (Text × Text))
  | 0, _ => none
  | n + 1, t => do
    let (a, rest) ← parseAttribute t
    match rest with
    | [] => return [a]
    | ',' :: rest => return a :: (← attributesFrom n (rest.dropWhile isBlankChar))
    | _ => none

def parseAttributes (t : Text) : Option (List (Text × Text)) := attributesFrom t.length t

def attributeValue (name : Text) (attributes : List (Text × Text)) : Option Text :=
  (attributes.find? fun a => a.1 = name).map Prod.snd

theorem attributeValue_cons (name k v : Text) (as : List (Text × Text)) :
    attributeValue name ((k, v) :: as) = if k = name then some v else attributeValue name as := by
  rw [attributeValue, find?_cons]
  by_cases hk : k = name
  · simp [hk]
  · simp [hk, attributeValue]

theorem attributeValue_nil (name : Text) : attributeValue name [] = none := rfl

def printAttribute (a : Text × Text) : Text := a.1 ++ '=' :: '"' :: (a.2 ++ ['"'])

def printAttributes : List (Text × Text) → Text
  | [] => []
  | a :: as => printAttribute a ++ as.flatMap fun b => ',' :: ' ' :: printAttribute b

variable {attributes as : List (Text × Text)} {a : Text × Text} {t : Text} {n : ℕ}

theorem parseAttribute_print (hname : IsName a.1) (hvalue : Plain a.2) (t : Text) :
    parseAttribute (printAttribute a ++ t) = some (a, t.dropWhile isBlankChar) := by
  have hequals : '=' ∉ a.1 := fun h => absurd (all_eq_true.1 hname.2 _ h) (by decide)
  have hsplit : splitOnce '=' (printAttribute a ++ t) = some (a.1, '"' :: (a.2 ++ '"' :: t)) := by
    rw [printAttribute, append_assoc, cons_append, cons_append, append_assoc,
      singleton_append, splitOnce_append hequals]
  simp only [parseAttribute, hsplit, bind_eq_bind, bind_some, splitOnce_append hvalue.1]
  exact if_pos ⟨hname, hvalue.2⟩

theorem plain_of_parseAttribute {t rest : Text} (h : parseAttribute t = some (a, rest)) :
    Plain a.2 := by
  simp only [parseAttribute, bind_eq_bind, bind_eq_some_iff] at h
  obtain ⟨⟨name, behind⟩, -, h⟩ := h
  split at h
  · obtain ⟨⟨value, behind⟩, hvalue, h⟩ := bind_eq_some_iff.1 h
    split at h
    next hif =>
      cases h
      exact ⟨(splitOnce_eq_some hvalue).2, hif.2⟩
    · cases h
  · cases h

theorem plain_of_attributesFrom (h : attributesFrom n t = some attributes) :
    ∀ a ∈ attributes, Plain a.2 := by
  induction n generalizing t attributes with
  | zero => cases h
  | succ n ih =>
    simp only [attributesFrom, bind_eq_bind, bind_eq_some_iff] at h
    obtain ⟨⟨a, rest⟩, ha, h⟩ := h
    split at h
    · cases h
      exact forall_mem_singleton.2 (plain_of_parseAttribute ha)
    · obtain ⟨as, has, h⟩ := bind_eq_some_iff.1 h
      cases h
      exact forall_mem_cons.2 ⟨plain_of_parseAttribute ha, ih has⟩
    · cases h

theorem plain_of_parseAttributes
    (h : parseAttributes t = some attributes) : ∀ a ∈ attributes, Plain a.2 :=
      plain_of_attributesFrom h

theorem plain_of_attributeValue {t name value : Text}
    (h : parseAttributes t = some attributes)
    (hvalue : attributeValue name attributes = some value) : Plain value := by
  obtain ⟨a, ha, rfl⟩ := map_eq_some_iff.1 hvalue
  exact plain_of_parseAttributes h a (mem_of_find?_eq_some ha)

theorem dropWhile_print (hname : IsName a.1) (t : Text) :
    (printAttribute a ++ t).dropWhile isBlankChar = printAttribute a ++ t := by
  obtain ⟨name, value⟩ := a
  cases name with
  | nil => exact absurd rfl hname.1
  | cons c name =>
    have hc : c.isAlphanum = true := all_eq_true.1 hname.2 c mem_cons_self
    refine dropWhile_cons_of_neg fun hblank => ?_
    rw [isBlankChar, Bool.or_eq_true, decide_eq_true_eq, decide_eq_true_eq] at hblank
    rcases hblank with rfl | rfl
    · exact absurd hc (by decide)
    · exact absurd hc (by decide)

theorem attributesFrom_print (h : ∀ b ∈ a :: as, IsName b.1 ∧ Plain b.2) (hn : as.length ≤ n) :
    attributesFrom (n + 1) (printAttributes (a :: as)) = some (a :: as) := by
  induction as generalizing a n with
  | nil =>
    rw [forall_mem_singleton] at h
    simp only [attributesFrom, printAttributes, parseAttribute_print h.1 h.2, flatMap_nil,
      dropWhile_nil, bind_eq_bind, bind_some]
    rfl
  | cons b bs ih =>
    obtain ⟨n, rfl⟩ := Nat.exists_eq_add_of_le' (Nat.lt_of_lt_of_le (Nat.succ_pos _) hn)
    rw [forall_mem_cons] at h
    have hrest := ih h.2 (Nat.le_of_succ_le_succ hn)
    have htext : printAttributes (a :: b :: bs) =
        printAttribute a ++ (',' :: ' ' :: printAttributes (b :: bs)) := by
      simp [printAttributes]
    -- behind the comma and the blank stands the next name
    have hcomma : (',' :: ' ' :: printAttributes (b :: bs)).dropWhile isBlankChar =
        ',' :: ' ' :: printAttributes (b :: bs) := dropWhile_cons_of_neg (by decide)
    have hblank : (' ' :: printAttributes (b :: bs)).dropWhile isBlankChar =
        printAttributes (b :: bs) :=
      (dropWhile_cons_of_pos (by decide)).trans (dropWhile_print (h.2 b mem_cons_self).1 _)
    rw [attributesFrom, htext, parseAttribute_print h.1.1 h.1.2, hcomma]
    simp only [bind_eq_bind, bind_some, hblank, hrest]
    rfl

theorem length_le_printAttributes (a : Text × Text) (as : List (Text × Text)) :
    as.length + 1 ≤ (printAttributes (a :: as)).length := by
  induction as with
  | nil =>
    rw [printAttributes, printAttribute, length_append, length_append, length_cons]
    exact succ_le_of_lt (lt_of_lt_of_le (succ_pos _) (le_add_left _ _))
  | cons b bs ih =>
    simp only [printAttributes, flatMap_cons, length_append, length_cons] at ih ⊢
    omega

theorem parseAttributes_print
    (h : ∀ b ∈ a :: as, IsName b.1 ∧ Plain b.2) :
    parseAttributes (printAttributes (a :: as)) = some (a :: as) := by
  obtain ⟨n, hn⟩ := Nat.exists_eq_add_of_le (length_le_printAttributes a as)
  rw [parseAttributes, hn, Nat.add_right_comm]
  exact attributesFrom_print h (le_add_right _ _)

end Lib
