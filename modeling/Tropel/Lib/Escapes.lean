import Tropel.Lib.Text

/-!
# Backslash escapes

A text may have characters behind backslashes, which then do not separate anything.
-/

namespace Lib

open List

inductive Guarded (sep : Char → Prop) : Text → Prop
  | nil : Guarded sep []
  | plain {c : Char} {t : Text} : c ≠ '\\' → ¬ sep c → Guarded sep t → Guarded sep (c :: t)
  | escaped {c : Char} {t : Text} : Guarded sep t → Guarded sep ('\\' :: c :: t)

namespace Guarded

variable {sep sep' : Char → Prop} {a b t : Text}

theorem append (ha : Guarded sep a) (hb : Guarded sep b) : Guarded sep (a ++ b) := by
  induction ha with
  | nil => exact hb
  | plain hc hsep _ ih => exact .plain hc hsep ih
  | escaped _ ih => exact .escaped ih

theorem mono (h : Guarded sep t) (hsub : ∀ c, sep' c → sep c) : Guarded sep' t := by
  induction h with
  | nil => exact .nil
  | plain hc hsep _ ih => exact .plain hc (fun h => hsep (hsub _ h)) ih
  | escaped _ ih => exact .escaped ih

theorem of_forall (h : ∀ c ∈ t, c ≠ '\\' ∧ ¬ sep c) : Guarded sep t := by
  induction t with
  | nil => exact .nil
  | cons c t ih =>
    rw [forall_mem_cons] at h
    exact .plain h.1.1 h.1.2 (ih h.2)

theorem intercalate {l : Text} {ts : List Text} (hl : Guarded sep l) (h : ∀ t ∈ ts, Guarded sep t) :
    Guarded sep (l.intercalate ts) := by
  induction ts with
  | nil => exact .nil
  | cons t ts ih =>
    rw [forall_mem_cons] at h
    cases ts with
    | nil =>
      rw [intercalate_singleton]
      exact h.1
    | cons t' ts =>
      rw [intercalate_cons_cons]
      exact (h.1.append hl).append (ih h.2)

end Guarded

/-! ## Splitting -/

def splitUnescaped (sep : Char) : Text → List Text
  | [] => [[]]
  | [c] => if c = sep then [[], []] else [[c]]
  | c :: d :: t =>
    if c = '\\' then consHead c (consHead d (splitUnescaped sep t))
    else if c = sep then [] :: splitUnescaped sep (d :: t)
    else consHead c (splitUnescaped sep (d :: t))

def splitOnceUnescaped (sep : Char) : Text → Option (Text × Text)
  | [] => none
  | [c] => if c = sep then some ([], []) else none
  | c :: d :: t =>
    if c = '\\' then (splitOnceUnescaped sep t).map fun p => (c :: d :: p.1, p.2)
    else if c = sep then some ([], d :: t)
    else (splitOnceUnescaped sep (d :: t)).map fun p => (c :: p.1, p.2)

section

variable {sep c : Char} {a t : Text}

theorem splitUnescaped_cons (hc : c ≠ '\\') : splitUnescaped sep (c :: t) =
    if c = sep then [] :: splitUnescaped sep t else consHead c (splitUnescaped sep t) := by
  cases t with
  | nil => rfl
  | cons d t => rw [splitUnescaped, if_neg hc]

theorem splitOnceUnescaped_cons (hc : c ≠ '\\') : splitOnceUnescaped sep (c :: t) =
    if c = sep then some ([], t) else (splitOnceUnescaped sep t).map fun p => (c :: p.1, p.2) := by
  cases t with
  | nil => rfl
  | cons d t => rw [splitOnceUnescaped, if_neg hc]

theorem splitUnescaped_eq_singleton (h : Guarded (· = sep) t) : splitUnescaped sep t = [t] := by
  induction h with
  | nil => rfl
  | plain hc hsep _ ih => rw [splitUnescaped_cons hc, if_neg hsep, ih, consHead]
  | escaped _ ih => rw [splitUnescaped, if_pos rfl, ih, consHead, consHead]

theorem splitUnescaped_append (hsep : sep ≠ '\\') (h : Guarded (· = sep) a) (b : Text) :
    splitUnescaped sep (a ++ sep :: b) = a :: splitUnescaped sep b := by
  induction h with
  | nil => rw [nil_append, splitUnescaped_cons hsep, if_pos rfl]
  | plain hc hnot _ ih => rw [cons_append, splitUnescaped_cons hc, if_neg hnot, ih, consHead]
  | escaped _ ih =>
    rw [cons_append, cons_append, splitUnescaped, if_pos rfl, ih, consHead, consHead]

theorem splitUnescaped_intercalate (hsep : sep ≠ '\\') {ts : List Text} (hne : ts ≠ [])
    (h : ∀ t ∈ ts, Guarded (· = sep) t) : splitUnescaped sep ([sep].intercalate ts) = ts := by
  induction ts with
  | nil => exact absurd rfl hne
  | cons t ts ih =>
    rw [forall_mem_cons] at h
    cases ts with
    | nil => rw [intercalate_singleton, splitUnescaped_eq_singleton h.1]
    | cons t' ts =>
      rw [intercalate_cons_cons, append_assoc, singleton_append, splitUnescaped_append hsep h.1,
        ih (cons_ne_nil _ _) h.2]

theorem splitOnceUnescaped_append (hsep : sep ≠ '\\') (h : Guarded (· = sep) a) (b : Text) :
    splitOnceUnescaped sep (a ++ sep :: b) = some (a, b) := by
  induction h with
  | nil => rw [nil_append, splitOnceUnescaped_cons hsep, if_pos rfl]
  | plain hc hnot _ ih =>
    rw [cons_append, splitOnceUnescaped_cons hc, if_neg hnot, ih, Option.map_some]
  | escaped _ ih =>
    rw [cons_append, cons_append, splitOnceUnescaped, if_pos rfl, ih, Option.map_some]

end

def unescape (decode : Char → Char) : Text → Text
  | [] => []
  | [c] => [c]
  | c :: d :: t => if c = '\\' then decode d :: unescape decode t else c :: unescape decode (d :: t)

theorem unescape_cons {decode : Char → Char} {c : Char} (hc : c ≠ '\\') (t : Text) :
    unescape decode (c :: t) = c :: unescape decode t := by
  cases t with
  | nil => rfl
  | cons d t => rw [unescape, if_neg hc]

variable {esc : Char → Text} {sep : Char → Prop}

theorem guarded_flatMap (h : ∀ c, (esc c = [c] ∧ c ≠ '\\' ∧ ¬ sep c) ∨ ∃ x, esc c = ['\\', x])
    (t : Text) :
    Guarded sep (t.flatMap esc) := by
  induction t with
  | nil => exact .nil
  | cons c t ih =>
    rw [flatMap_cons]
    rcases h c with ⟨heq, hc, hsep⟩ | ⟨x, heq⟩
    · rw [heq]
      exact .plain hc hsep ih
    · rw [heq]
      exact .escaped ih

theorem unescape_flatMap {decode f : Char → Char}
    (h : ∀ c, (esc c = [c] ∧ c ≠ '\\' ∧ f c = c) ∨ ∃ x, esc c = ['\\', x] ∧ decode x = f c)
    (t : Text) :
    unescape decode (t.flatMap esc) = t.map f := by
  induction t with
  | nil => rfl
  | cons c t ih =>
    rw [flatMap_cons, map_cons]
    rcases h c with ⟨heq, hc, hf⟩ | ⟨x, heq, hx⟩
    · rw [heq, singleton_append, unescape_cons hc, ih, hf]
    · rw [heq, cons_append, singleton_append, unescape, if_pos rfl, ih, hx]

end Lib
