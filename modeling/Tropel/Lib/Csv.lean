import Tropel.Lib.Machine
import Tropel.Lib.Rust

/-!
# Comma-separated values

The format of RFC 4180.
-/

namespace Lib.Csv

open List Option Nat

/-! ## Reader -/

inductive Place where
  | text
  | quoted
  | closed
  | ret
  deriving DecidableEq

structure Reader where
  place : Place
  field : Text
  fields : List Text
  records : List (List Text)

variable (r : Reader)

namespace Reader

def atRecord (records : List (List Text)) : Reader := ⟨.text, [], [], records⟩

def push (c : Char) : Reader := { r with field := r.field ++ [c] }

def endField : Reader := { r with place := .text, field := [], fields := r.fields ++ [r.field] }

def endRecord : Reader := atRecord (r.records ++ [r.fields ++ [r.field]])

def delimit (c : Char) : Option Reader :=
  if c = ',' then some r.endField
  else if c = '\n' then some r.endRecord
  else if c = '\r' then some { r with place := .ret }
  else none

def step (c : Char) : Option Reader :=
  match r.place with
  | .text =>
    if c = '"' then if r.field = [] then some { r with place := .quoted } else none
    else some ((r.delimit c).getD (r.push c))
  | .quoted => some (if c = '"' then { r with place := .closed } else r.push c)
  | .closed => if c = '"' then some { r.push c with place := .quoted } else r.delimit c
  | .ret => if c = '\n' then some r.endRecord else none

def finish : Option (List (List Text)) :=
  match r.place with
  | .text => some (if r.fields = [] ∧ r.field = [] then r.records else r.endRecord.records)
  | .closed => some r.endRecord.records
  | .quoted | .ret => none

end Reader

def reader : Machine Reader Char := ⟨Reader.step⟩

def parseFrom (t : Text) : Option (List (List Text)) := (reader.exec r t).bind Reader.finish

def parse (t : Text) : Option (List (List Text)) := parseFrom (.atRecord []) t

variable {c : Char}

theorem parseFrom_cons {r r' : Reader} (h : r.step c = some r') (t : Text) :
    parseFrom r (c :: t) = parseFrom r' t := by
  rw [parseFrom, Machine.exec, show reader.step r c = some r' from h, bind_some, parseFrom]

theorem exists_step {r : Reader} {t : Text} {L : List (List Text)}
    (h : parseFrom r (c :: t) = some L) :
    ∃ r', r.step c = some r' ∧ parseFrom r' t = some L := by
  rw [parseFrom, Machine.exec, bind_assoc, bind_eq_some_iff] at h
  exact h

/-! ## Lines of plain fields -/

def separators : List Char := [',', '"', '\r', '\n']

def Plain (t : Text) : Prop := ∀ c ∈ t, c ∉ separators

instance : DecidablePred Plain := fun t => List.decidableBAll _ t

theorem plain_append {t u : Text} : Plain (t ++ u) ↔ Plain t ∧ Plain u := forall_mem_append

def line (fields : List Text) : Text := [','].intercalate fields ++ ['\n']

section

variable {acc : Text} {fs : List Text} {rs : List (List Text)} {row : List Text} {c : Char}

theorem step_plain (hc : c ∉ separators) :
    Reader.step ⟨.text, acc, fs, rs⟩ c = some ⟨.text, acc ++ [c], fs, rs⟩ := by
  simp only [separators, mem_cons, not_mem_nil, or_false, not_or] at hc
  obtain ⟨hcomma, hquote, hcr, hlf⟩ := hc
  rw [Reader.step, if_neg hquote, Reader.delimit, if_neg hcomma, if_neg hlf, if_neg hcr]
  rfl

theorem step_separator (hc : c ∈ separators) (hquote : c ≠ '"') :
    Reader.step ⟨.text, acc, fs, rs⟩ c = Reader.delimit ⟨.text, acc, fs, rs⟩ c := by
  simp only [separators, mem_cons, not_mem_nil, or_false] at hc
  rcases hc with rfl | rfl | rfl | rfl
  · rfl
  · exact absurd rfl hquote
  · rfl
  · rfl

theorem parseFrom_plain {t : Text} (h : Plain t) (u : Text) :
    parseFrom ⟨.text, acc, fs, rs⟩ (t ++ u) = parseFrom ⟨.text, acc ++ t, fs, rs⟩ u := by
  induction t generalizing acc with
  | nil => rw [append_nil, nil_append]
  | cons c t ih =>
    obtain ⟨hc, ht⟩ := forall_mem_cons.1 h
    rw [cons_append, parseFrom_cons (step_plain hc), ih ht, append_assoc, singleton_append]

theorem line_singleton (f : Text) : line [f] = f ++ ['\n'] := by simp [line]

theorem line_cons (f : Text) (hrow : row ≠ []) : line (f :: row) = f ++ ',' :: line row := by
  rw [line, intercalate_cons_of_ne_nil hrow, append_assoc, append_assoc, singleton_append, line]

theorem parseFrom_line (hne : row ≠ []) (h : ∀ f ∈ row, Plain f) (u : Text) :
    parseFrom ⟨.text, [], fs, rs⟩ (line row ++ u) =
      parseFrom (.atRecord (rs ++ [fs ++ row])) u := by
  induction row generalizing fs with
  | nil => exact absurd rfl hne
  | cons f row ih =>
    obtain ⟨hf, hrow⟩ := forall_mem_cons.1 h
    rcases eq_or_ne row [] with rfl | hne'
    · rw [line_singleton, append_assoc, parseFrom_plain hf]
      rfl
    · have hcomma : Reader.step ⟨.text, f, fs, rs⟩ ',' = some ⟨.text, [], fs ++ [f], rs⟩ := rfl
      rw [line_cons f hne', append_assoc, parseFrom_plain hf, nil_append, cons_append,
        parseFrom_cons hcomma, ih hne' hrow, append_assoc, singleton_append]

theorem parse_lines {rows : List (List Text)} (h : ∀ row ∈ rows, row ≠ [] ∧ ∀ f ∈ row, Plain f) :
    parse (rows.flatMap line) = some rows := by
  suffices hfrom : ∀ rs, parseFrom (.atRecord rs) (rows.flatMap line) = some (rs ++ rows) from
      hfrom []
  induction rows with
  | nil =>
    intro rs
    rw [append_nil]
    rfl
  | cons row rows ih =>
    intro rs
    obtain ⟨⟨hne, hrow⟩, hrows⟩ := forall_mem_cons.1 h
    rw [flatMap_cons, Reader.atRecord, parseFrom_line hne hrow, ih hrows, nil_append, append_assoc,
      singleton_append]

end

/-! ## First fields -/

def Reader.HeadAt (n : ℕ) (f : Text) (r : Reader) : Prop :=
  (r.records.length = n ∧ r.fields.head? = some f) ∨ r.records[n]?.bind List.head? = some f

section

variable {r r' : Reader} {c : Char} {n : ℕ} {f t : Text} {L : List (List Text)}

theorem delimit_eq_some (h : r.delimit c = some r') :
    r' = r.endField ∨ r' = r.endRecord ∨ r' = { r with place := .ret } := by
  unfold Reader.delimit at h
  split at h
  · exact .inl (some.inj h).symm
  split at h
  · exact .inr (.inl (some.inj h).symm)
  split at h
  · exact .inr (.inr (some.inj h).symm)
  · cases h

theorem step_eq_some (h : r.step c = some r') :
    r' = r.endField ∨ r' = r.endRecord ∨ (r'.fields = r.fields ∧ r'.records = r.records) := by
  have hdelimit {r' : Reader} (h : r.delimit c = some r') :
      r' = r.endField ∨ r' = r.endRecord ∨ (r'.fields = r.fields ∧ r'.records = r.records) := by
    rcases delimit_eq_some h with h | h | rfl
    · exact .inl h
    · exact .inr (.inl h)
    · exact .inr (.inr ⟨rfl, rfl⟩)
  unfold Reader.step at h
  split at h
  case h_1 =>
    split at h
    · obtain ⟨-, h⟩ := ite_none_right_eq_some.1 h
      obtain rfl := some.inj h
      exact .inr (.inr ⟨rfl, rfl⟩)
    · obtain rfl := some.inj h
      rcases hd : r.delimit c with _ | r'
      · exact .inr (.inr ⟨rfl, rfl⟩)
      · exact hdelimit hd
  case h_2 =>
    obtain rfl := some.inj h
    split <;> exact .inr (.inr ⟨rfl, rfl⟩)
  case h_3 =>
    split at h
    · obtain rfl := some.inj h
      exact .inr (.inr ⟨rfl, rfl⟩)
    · exact hdelimit h
  case h_4 =>
    obtain ⟨-, h⟩ := ite_none_right_eq_some.1 h
    exact .inr (.inl (some.inj h).symm)

theorem Reader.HeadAt.concat {fs : List Text} (h : r.HeadAt n f)
    (hfs : r.fields.head? = some f → fs.head? = some f) :
    (r.records ++ [fs])[n]?.bind List.head? = some f := by
  rcases h with ⟨rfl, hf⟩ | h
  · rw [getElem?_concat_length, bind_some, hfs hf]
  · obtain ⟨row, hrow, hf⟩ := bind_eq_some_iff.1 h
    rw [getElem?_append_left (List.getElem?_eq_some_iff.1 hrow).1, h]

theorem Reader.HeadAt.step (h : r.HeadAt n f) (hstep : r.step c = some r') : r'.HeadAt n f := by
  have hhead (hf : r.fields.head? = some f) : (r.fields ++ [r.field]).head? = some f := by
    rw [head?_append, hf, some_or]
  rcases step_eq_some hstep with rfl | rfl | ⟨hfields, hrecords⟩
  · exact h.imp_left (And.imp_right hhead)
  · exact .inr (h.concat hhead)
  · rwa [HeadAt, hfields, hrecords]

theorem Reader.HeadAt.finish (h : r.HeadAt n f) (hL : r.finish = some L) :
    L[n]?.bind List.head? = some f := by
  have hhead (hf : r.fields.head? = some f) : (r.fields ++ [r.field]).head? = some f := by
    rw [head?_append, hf, some_or]
  unfold Reader.finish at hL
  split at hL
  case h_1 =>
    obtain rfl := some.inj hL
    split
    next hempty =>
      rcases h with ⟨-, hf⟩ | h
      · rw [hempty.1] at hf
        cases hf
      · exact h
    next => exact h.concat hhead
  case h_2 =>
    obtain rfl := some.inj hL
    exact h.concat hhead
  all_goals cases hL

theorem Reader.HeadAt.parseFrom (h : r.HeadAt n f) (hL : parseFrom r t = some L) :
    L[n]?.bind List.head? = some f := by
  induction t generalizing r with
  | nil => exact h.finish hL
  | cons c t ih =>
    obtain ⟨r', hstep, hL⟩ := exists_step hL
    exact ih (h.step hstep) hL

theorem headAt_endField (hfields : r.fields = []) : r.endField.HeadAt r.records.length r.field := by
  refine .inl ⟨rfl, ?_⟩
  rw [Reader.endField, hfields]
  rfl

theorem headAt_endRecord (hfields : r.fields = []) :
    r.endRecord.HeadAt r.records.length r.field := by
  refine .inr ?_
  rw [Reader.endRecord, Reader.atRecord, getElem?_concat_length, hfields]
  rfl

theorem head_of_delimit (hfields : r.fields = []) (hr' : r.delimit c = some r')
    (hL : parseFrom r' t = some L) :
    L[r.records.length]?.bind List.head? = some r.field := by
  rcases delimit_eq_some hr' with rfl | rfl | rfl
  · exact (headAt_endField hfields).parseFrom hL
  · exact (headAt_endRecord hfields).parseFrom hL
  · -- Only a line feed may stand after the carriage return.
    rcases t with _ | ⟨d, t⟩
    · cases hL
    · obtain ⟨r'', hstep, hL⟩ := exists_step hL
      obtain ⟨-, h⟩ := ite_none_right_eq_some.1 hstep
      obtain rfl := some.inj h
      exact (headAt_endRecord hfields).parseFrom hL

def quotes (t : Text) : ℕ := (t.takeWhile (· = '"')).length

theorem quotes_quote (t : Text) : quotes ('"' :: t) = quotes t + 1 := by
  rw [quotes, takeWhile_cons_of_pos (by rfl), length_cons, quotes]

theorem quotes_of_ne (hc : c ≠ '"') (t : Text) : quotes (c :: t) = 0 := by
  rw [quotes, takeWhile_cons_of_neg (by simpa using hc), length_nil]

theorem quotes_append (hc : c ≠ '"') (t u : Text) : quotes (t ++ c :: u) = quotes t := by
  induction t with
  | nil => exact quotes_of_ne hc u
  | cons d t ih =>
    rw [cons_append]
    by_cases hd : d = '"'
    · rw [hd, quotes_quote, quotes_quote, ih]
    · rw [quotes_of_ne hd, quotes_of_ne hd]

variable {rs : List (List Text)}

theorem exists_quoted_head {place : Place} {acc : Text}
    (hplace : place = .quoted ∨ place = .closed) (hL : parseFrom ⟨place, acc, [], rs⟩ t = some L) :
    ∃ f, L[rs.length]?.bind List.head? = some (acc ++ f) ∧ quotes f ≤ quotes t := by
  induction t generalizing place acc with
  | nil =>
    rcases hplace with rfl | rfl
    · cases hL
    · obtain rfl := some.inj hL
      refine ⟨[], ?_, le_rfl⟩
      rw [append_nil]
      exact (headAt_endRecord (r := ⟨.closed, acc, [], rs⟩) rfl).finish rfl
  | cons c t ih =>
    obtain ⟨r', hstep, hrest⟩ := exists_step hL
    by_cases hc : c = '"'
    · subst hc
      rcases hplace with rfl | rfl
      · obtain rfl := some.inj hstep
        obtain ⟨f, hf, hle⟩ := ih (.inr rfl) hrest
        exact ⟨f, hf, (quotes_quote t).symm ▸ le_succ_of_le hle⟩
      · -- Two quotes are read as one.
        obtain rfl := some.inj hstep
        obtain ⟨f, (hf : _ = some (acc ++ ['"'] ++ f)), hle⟩ := ih (.inl rfl) hrest
        refine ⟨'"' :: f, ?_, ?_⟩
        · rw [hf, append_assoc, singleton_append]
        · rw [quotes_quote, quotes_quote]
          exact succ_le_succ hle
    · rcases hplace with rfl | rfl
      · obtain rfl := some.inj hstep
        rw [if_neg hc] at hrest
        obtain ⟨f, (hf : _ = some (acc ++ [c] ++ f)), -⟩ := ih (.inl rfl) hrest
        refine ⟨c :: f, ?_, ?_⟩
        · rw [hf, append_assoc, singleton_append]
        · rw [quotes_of_ne hc]
          exact zero_le _
      · have hdelimit : Reader.delimit ⟨.closed, acc, [], rs⟩ c = some r' :=
          (if_neg hc).symm.trans hstep
        have hhead := head_of_delimit rfl hdelimit hrest
        exact ⟨[], by rwa [append_nil], zero_le _⟩

theorem plain_of_head {acc key u : Text}
    (hL : parseFrom ⟨.text, acc, [], rs⟩ (key ++ ',' :: u) = some L)
    (hkey : L[rs.length]?.bind List.head? = some (acc ++ key)) : Plain key := by
  induction key generalizing acc with
  | nil => exact forall_mem_nil _
  | cons c key ih =>
    rw [cons_append] at hL
    by_cases hc : c ∈ separators
    · exfalso
      obtain ⟨r', hstep, hL⟩ := exists_step hL
      by_cases hquote : c = '"'
      · subst hquote
        obtain ⟨hacc, hr'⟩ := ite_none_right_eq_some.1 hstep
        obtain rfl : acc = [] := hacc
        obtain rfl := some.inj hr'
        -- The field begins with fewer quotes than the key.
        obtain ⟨f, hf, hle⟩ := exists_quoted_head (.inl rfl) hL
        obtain rfl : f = '"' :: key := some.inj (hf.symm.trans hkey)
        rw [quotes_quote, quotes_append (by decide)] at hle
        exact not_succ_le_self _ hle
      · -- The field ends here.
        have hhead := head_of_delimit rfl ((step_separator hc hquote).symm.trans hstep) hL
        have hacc : acc = acc ++ c :: key := some.inj (hhead.symm.trans hkey)
        exact cons_ne_nil c key (append_right_eq_self.1 hacc.symm)
    · rw [parseFrom_cons (step_plain hc)] at hL
      refine forall_mem_cons.2 ⟨hc, ih hL ?_⟩
      rw [hkey, append_assoc, singleton_append]

theorem plain_of_heads {rows : List (Text × List Text)}
    (h : ∀ row ∈ rows, row.2 ≠ [] ∧ ∀ f ∈ row.2, Plain f)
    (hL : parseFrom (.atRecord rs) (rows.flatMap fun row => line (row.1 :: row.2)) = some L)
    (hheads : List.Forall₂ (fun row l => l.head? = some row.1) rows (L.drop rs.length)) :
    ∀ row ∈ rows, Plain row.1 := by
  induction rows generalizing rs with
  | nil => exact forall_mem_nil _
  | cons row rows ih =>
    obtain ⟨⟨hne, hrest⟩, hrows⟩ := forall_mem_cons.1 h
    obtain ⟨l, L', hl, hL', hdrop⟩ := forall₂_cons_left_iff.1 hheads
    rw [flatMap_cons] at hL
    have hplain : Plain row.1 := by
      rw [line_cons _ hne, append_assoc] at hL
      refine plain_of_head hL ?_
      rw [← head?_drop, hdrop, head?_cons, bind_some, hl, nil_append]
    rw [Reader.atRecord, parseFrom_line (cons_ne_nil _ _) (forall_mem_cons.2 ⟨hplain, hrest⟩)] at hL
    refine forall_mem_cons.2 ⟨hplain, ih hrows hL ?_⟩
    rwa [length_append, length_singleton, ← tail_drop, hdrop, tail_cons]

end

end Lib.Csv
