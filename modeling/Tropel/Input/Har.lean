import Tropel.Lib.Text

/-!
# HTTP archives

The entries of an archive that are replayed: not the static ones, but for one document.

* `kept_replayable_iff`: when these are the right ones.
-/

namespace Tropel.Har

open Lib List Bool

/-! ## Entries -/

structure HarEntry where
  url : Text
  resourceType : Option Text
  status : ℕ
  mimeType : Text
  deriving DecidableEq

def unsupportedSchemes : List String :=
  ["data:", "blob:", "about:", "javascript:", "chrome-extension:", "file:", "ws:", "wss:"]

def staticTypes : List String :=
  ["image", "font", "stylesheet", "media", "manifest", "ping", "script"]

def staticMimes : List String :=
  ["text/html", "image/", "font/", "video/", "audio/", "text/css", "text/javascript",
    "application/javascript", "application/x-javascript", "application/ecmascript",
      "application/wasm", "application/font-woff",
    "application/x-font", "application/manifest+json"]

def startsWithAny (starts : List String) (t : Text) : Bool :=
  starts.any fun s => s.toList.isPrefixOf t

-- `to_lowercase`, of which nothing is assumed
variable (lower : Text → Text) (e : HarEntry)

def HarEntry.supported : Bool := !startsWithAny unsupportedSchemes (lower e.url)

def HarEntry.staticContent : Bool :=
  (e.resourceType.any fun rt => staticTypes.any fun s => s.toList = lower rt) ||
    startsWithAny staticMimes (lower e.mimeType)

def isStaticResource : Bool := !e.supported lower || e.staticContent lower

def HarEntry.is2xxHtml : Bool :=
  "text/html".toList.isPrefixOf (lower e.mimeType) && decide (200 ≤ e.status ∧ e.status < 300)

def HarEntry.claims : Bool := e.is2xxHtml lower && !startsWithAny ["blob:", "data:"] (lower e.url)

def kept : Bool → List HarEntry → List HarEntry
  | _, [] => []
  | htmlKept, e :: entries =>
    if e.claims lower && !htmlKept then e :: kept true entries
    else if isStaticResource lower e then kept htmlKept entries
    else e :: kept htmlKept entries

inductive HarError
  | noEntries
  | onlyStatic
  | invalidMethod (index : ℕ)

def parse {ι : Type} (toItem : HarEntry → Option ι)
    (entries : List HarEntry) : Result HarError (List ι) :=
  if entries = [] then .error (.err .noEntries)
  else match kept lower false entries with
    | [] => .error (.err .onlyStatic)
    | entries => entries.zipIdx.mapM fun (e, i) => okOr (toItem e) (.invalidMethod (i + 1))

/-! ## Replayable entries -/

def Replayable (before : List HarEntry) (e : HarEntry) : Prop :=
  e.supported lower ∧ (e.staticContent lower = false ∨
    e.is2xxHtml lower ∧ ∀ e' ∈ before, e'.supported lower → e'.is2xxHtml lower = false)

instance (before : List HarEntry) (e : HarEntry) : Decidable (Replayable lower before e) :=
  inferInstanceAs (Decidable (_ ∧ _))

def replayable : List HarEntry → List HarEntry → List HarEntry
  | _, [] => []
  | before, e :: entries =>
    if Replayable lower before e then e :: replayable (before ++ [e]) entries
      else replayable (before ++ [e]) entries

variable {lower} {e : HarEntry} {before entries : List HarEntry}

theorem claims_of_supported (he : e.supported lower) (hhtml : e.is2xxHtml lower) :
    e.claims lower := by
  simp only [HarEntry.supported, startsWithAny, Bool.not_eq_true', any_eq_false] at he
  simp only [HarEntry.claims, hhtml, startsWithAny, Bool.true_and, Bool.not_eq_true', any_eq_false]
  have hschemes : ∀ s ∈ ["blob:", "data:"], s ∈ unsupportedSchemes := by decide
  exact fun s hs => he s (hschemes s hs)

theorem is2xxHtml_eq_false (hclaims : e.claims lower = false) (he : e.supported lower) :
    e.is2xxHtml lower = false := by
  rw [← not_eq_true]
  exact fun hhtml => false_ne_true (hclaims.symm.trans (claims_of_supported he hhtml))

theorem ite_static_eq (h : Replayable lower before e ↔ isStaticResource lower e = false)
    (rest : List HarEntry) :
    (if isStaticResource lower e then rest else e :: rest) = if Replayable lower before e
      then e :: rest else rest := by
  cases hstatic : isStaticResource lower e <;> simp [h, hstatic]

theorem kept_true (hbefore : ∃ e' ∈ before, e'.supported lower ∧ e'.is2xxHtml lower) :
    kept lower true entries = replayable lower before entries := by
  induction entries generalizing before with
  | nil => rfl
  | cons e entries ih =>
    have hiff : Replayable lower before e ↔ isStaticResource lower e = false := by
      obtain ⟨e', he', hs, hhtml⟩ := hbefore
      have hfirst : ¬∀ e' ∈ before, e'.supported lower → e'.is2xxHtml lower = false := fun h => by
        simp [h e' he' hs] at hhtml
      simp [Replayable, isStaticResource, hfirst]
    have hrest : kept lower true entries = replayable lower (before ++ [e]) entries := by
      refine ih ?_
      obtain ⟨e', he', h⟩ := hbefore
      exact ⟨e', mem_append_left _ he', h⟩
    rw [kept, replayable, hrest, ← ite_static_eq hiff]
    simp only [Bool.not_true, Bool.and_false, Bool.false_eq_true, if_false]

theorem kept_false (hbefore : ∀ e' ∈ before, e'.claims lower = false)
    (hfirst : ∀ e ∈ entries.find? (·.claims lower), e.supported lower) :
    kept lower false entries = replayable lower before entries := by
  induction entries generalizing before with
  | nil => rfl
  | cons e entries ih =>
    have hnone : ∀ e' ∈ before, e'.supported lower → e'.is2xxHtml lower = false :=
      fun e' he' => is2xxHtml_eq_false (hbefore e' he')
    rw [kept, replayable]
    by_cases hclaims : e.claims lower
    · have hs : e.supported lower := hfirst e (find?_cons_of_pos hclaims)
      have hhtml : e.is2xxHtml lower := (and_eq_true _ _ ▸ hclaims).1
      rw [if_pos (by simp [hclaims]), if_pos ⟨hs, .inr ⟨hhtml, hnone⟩⟩,
        kept_true ⟨e, mem_append_right _ mem_cons_self, hs, hhtml⟩]
    · have hiff : Replayable lower before e ↔ isStaticResource lower e = false := by
        simp only [Replayable, isStaticResource, or_eq_false_iff, not_eq_false']
        exact and_congr_right fun hs =>
          or_iff_left (by simp [is2xxHtml_eq_false (eq_false_iff.2 hclaims) hs])
      rw [find?_cons_of_neg hclaims] at hfirst
      have hrest : kept lower false entries = replayable lower (before ++ [e]) entries := by
        refine ih ?_ hfirst
        rw [forall_mem_append, forall_mem_singleton]
        exact ⟨hbefore, eq_false_iff.2 hclaims⟩
      rw [if_neg (by simp [hclaims]), hrest, ite_static_eq hiff]

theorem mem_kept_of_find (h : entries.find? (·.claims lower) = some e) :
    e ∈ kept lower false entries := by
  induction entries with
  | nil => cases h
  | cons e' entries ih =>
    rw [kept]
    by_cases hclaims : e'.claims lower
    · rw [find?_cons_of_pos hclaims] at h
      rw [if_pos (by simp [hclaims]), ← Option.some.inj h]
      exact mem_cons_self
    · rw [find?_cons_of_neg hclaims] at h
      rw [if_neg (by simp [hclaims])]
      split
      · exact ih h
      · exact mem_cons_of_mem _ (ih h)

theorem supported_of_mem_replayable (h : e ∈ replayable lower before entries) :
    e.supported lower := by
  induction entries generalizing before with
  | nil => cases h
  | cons e' entries ih =>
    rw [replayable] at h
    split at h
    next he' =>
      rcases mem_cons.1 h with rfl | h
      · exact he'.1
      · exact ih h
    · exact ih h

theorem kept_eq_iff : kept lower false entries = replayable lower [] entries ↔
    ∀ e ∈ entries.find? (·.claims lower), e.supported lower := by
  refine ⟨fun h e he => ?_, kept_false (forall_mem_nil _)⟩
  have hmem : e ∈ replayable lower [] entries := h ▸ mem_kept_of_find he
  exact supported_of_mem_replayable hmem

theorem kept_subset (htmlKept : Bool) : kept lower htmlKept entries ⊆ entries := by
  fun_induction kept lower htmlKept entries with
  | case1 => exact fun _ h => h
  | case2 _ e entries _ ih | case4 _ e entries _ _ ih => exact cons_subset_cons e ih
  | case3 _ e entries _ _ ih => exact subset_cons_of_subset e ih

theorem exists_items {ι : Type} {toItem : HarEntry → Option ι}
    (h : ∀ e ∈ entries, (toItem e).isSome) (n : ℕ) :
    ∃ items, ((entries.zipIdx n).mapM fun (e, i) =>
      okOr (toItem e) (HarError.invalidMethod (i + 1))) = .ok items ∧
      items.map some = entries.map toItem := by
  induction entries generalizing n with
  | nil => exact ⟨[], rfl, rfl⟩
  | cons e entries ih =>
    rw [forall_mem_cons] at h
    obtain ⟨item, hitem⟩ := Option.isSome_iff_exists.1 h.1
    obtain ⟨items, hok, heq⟩ := ih h.2 (n + 1)
    refine ⟨item :: items, ?_, by rw [map_cons, map_cons, heq, hitem]⟩
    rw [zipIdx_cons, mapM_cons, hok]
    dsimp only
    rw [hitem]
    rfl

variable (lower)

/-- The replayable entries are kept if and only if the first document that is not a `blob:` or
    `data:` URL has a supported scheme; all that are kept become items, in their order. -/
theorem kept_replayable_iff {ι : Type} (toItem : HarEntry → Option ι) (entries : List HarEntry)
    (hvalid : ∀ e ∈ entries, (toItem e).isSome) :
    (kept lower false entries = replayable lower [] entries ↔
      ∀ e ∈ entries.find? (·.claims lower), e.supported lower) ∧
    (kept lower false entries ≠ [] → ∃ items, parse lower toItem entries = .ok items ∧
      items.map some = (kept lower false entries).map toItem) := by
  refine ⟨kept_eq_iff, fun hne => ?_⟩
  have hentries : entries ≠ [] := by
    rintro rfl
    exact hne rfl
  obtain ⟨items, hok, heq⟩ := exists_items (fun e he => hvalid e (kept_subset false he)) 0
  refine ⟨items, ?_, heq⟩
  rw [parse, if_neg hentries]
  split
  next hnil => exact absurd hnil hne
  · exact hok

theorem kept_replayable_page : ∃ page image : HarEntry, kept id false [page, image] = [page] ∧
    ((kept id false [page, image] = replayable id [] [page, image] ↔
      ∀ e ∈ [page, image].find? (·.claims id), e.supported id) ∧
    (kept id false [page, image] ≠ [] → ∃ items, parse id some [page, image] = .ok items ∧
      items.map some = (kept id false [page, image]).map some)) :=
  ⟨⟨"http://a/", none, 200, "text/html"⟩, ⟨"http://a/i", none, 200, "image/png"⟩,
    by decide, kept_replayable_iff id some _ fun _ _ => rfl⟩

theorem kept_about : ∃ about page : HarEntry, "about:" <+: about.url ∧ "http:" <+: page.url ∧
    kept id false [about, page] = [about] ∧ replayable id [] [about, page] = [page] :=
  ⟨⟨"about:blank", none, 200, "text/html"⟩, ⟨"http://a/", none, 200, "text/html"⟩,
    by decide, by decide, by decide, by decide⟩

end Tropel.Har
