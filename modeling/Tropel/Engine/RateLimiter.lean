import Mathlib.Algebra.GroupWithZero.Nat
import Mathlib.Algebra.Order.Monoid.Unbundled.Basic
import Mathlib.Data.List.Basic
import Mathlib.Data.List.Chain
import Tropel.Lib.Spacing

/-!
# The rate limiter of the agent

A limiter counts the calls of a connection in a *window*, which a call restarts when a second has
passed since its start. The windows are those of the instants alone (`windows`).

* `admitted_calls`: each window lets through its first 200 calls;
* `allowed_le_iff`: when no second has more than 200 allowed calls, and what a refusal says.
-/

namespace Tropel

open Lib List

def rateLimitPerSec : ℕ := 200

def second : ℕ := 10 ^ 9

structure RateLimiter where
  windowStart : ℕ
  count : ℕ

namespace RateLimiter

def new (now : ℕ) : RateLimiter := ⟨now, 0⟩

def restarts (r : RateLimiter) (now : ℕ) : Bool := 1 ≤ (now - r.windowStart) / second

def allow (r : RateLimiter) (now : ℕ) : RateLimiter × Bool :=
  let r := if r.restarts now then ⟨now, 0⟩ else r
  let r := { r with count := r.count + 1 }
  (r, !decide (r.count > rateLimitPerSec))

structure Call where
  now : ℕ
  allowed : Bool

/-- The calls at the given instants, one after the other. -/
def calls (r : RateLimiter) : List ℕ → List Call
  | [] => []
  | now :: ts => ⟨now, (r.allow now).2⟩ :: (r.allow now).1.calls ts

def allowedIn (cs : List Call) (a b : ℕ) : ℕ :=
  cs.countP fun c => c.allowed && a ≤ c.now && c.now < b

/-- The instants of calls, cut into windows: the first one begins at `start` and takes the calls of
    less than a second after it, and the first call later than that begins the next one. -/
def windows (start : ℕ) : List ℕ → List ℕ × List (List ℕ)
  | [] => ([], [])
  | t :: ts =>
    if start + second ≤ t then ([], (t :: (windows t ts).1) :: (windows t ts).2)
    else (t :: (windows start ts).1, (windows start ts).2)

/-- Of two windows, one after the other: a call among the first 200 of the earlier one, and the one
    that is the 200th after it if only the first 200 of each count, are a second apart. -/
def Spread (w w' : List ℕ) : Prop :=
  ∀ j k x y, (w.take rateLimitPerSec)[j]? = some x → (w'.take rateLimitPerSec)[k]? = some y →
    (w.take rateLimitPerSec).length + k = j + rateLimitPerSec → x + second ≤ y

variable {r : RateLimiter} {start now a b : ℕ} {ts : List ℕ}

theorem restarts_iff : r.restarts now = true ↔ r.windowStart + second ≤ now := by
  rw [restarts, decide_eq_true_eq, Nat.one_le_div_iff (by decide)]
  have hpos : 0 < second := by decide
  omega

theorem allow_of_restarts (h : r.restarts now = true) : r.allow now = (⟨now, 1⟩, true) := by
  rw [allow, if_pos h]
  rfl

theorem allow_of_not_restarts (h : r.restarts now = false) :
    r.allow now = (⟨r.windowStart, r.count + 1⟩, decide (r.count < rateLimitPerSec)) := by
  rw [allow, h, if_neg Bool.false_ne_true]
  rw [← decide_not]
  simp only [Nat.not_lt, gt_iff_lt, Nat.succ_le_iff]

/-! ## Windows -/

/-- The instants of the allowed calls. -/
def admitted (cs : List Call) : List ℕ := (cs.filter Call.allowed).map Call.now

theorem allowedIn_eq (cs : List Call) (a b : ℕ) :
    allowedIn cs a b = (admitted cs).countP fun t => a ≤ t ∧ t < b := by
  rw [admitted, countP_map, countP_filter, allowedIn]
  refine countP_congr fun c _ => ?_
  simp only [Function.comp_apply, Bool.and_eq_true, decide_eq_true_eq]
  tauto

/-- Each window lets through its first 200 calls; the one that is open has let through `count`. -/
theorem admitted_calls (r : RateLimiter) (ts : List ℕ) : admitted (r.calls ts) =
    (windows r.windowStart ts).1.take (rateLimitPerSec - r.count) ++
      (windows r.windowStart ts).2.flatMap (take rateLimitPerSec) := by
  induction ts generalizing r with
  | nil => simp [calls, admitted, windows]
  | cons now ts ih =>
    have hcons (allowed : Bool) (cs : List Call) : admitted (⟨now, allowed⟩ :: cs) =
        (if allowed then [now] else []) ++ admitted cs := by
      cases allowed <;> rfl
    rw [calls, hcons, ih, windows]
    cases h : r.restarts now with
    | true =>
      rw [if_pos (restarts_iff.1 h), allow_of_restarts h, take_nil, nil_append, flatMap_cons]
      rfl
    | false =>
      rw [if_neg (mt restarts_iff.2 (Bool.eq_false_iff.1 h)), allow_of_not_restarts h]
      by_cases hcount : r.count < rateLimitPerSec
      · obtain ⟨k, hk⟩ : ∃ k, rateLimitPerSec - r.count = k + 1 :=
          ⟨rateLimitPerSec - r.count - 1, by omega⟩
        have hk' : rateLimitPerSec - (r.count + 1) = k := by omega
        simp [hcount, hk, hk']
      · simp [hcount, Nat.sub_eq_zero_of_le (Nat.not_lt.1 hcount),
          Nat.sub_eq_zero_of_le (Nat.le_succ_of_le (Nat.not_lt.1 hcount))]

theorem windows_flatten (start : ℕ) (ts : List ℕ) :
    (windows start ts).1 ++ (windows start ts).2.flatten = ts := by
  induction ts generalizing start with
  | nil => rfl
  | cons t ts ih =>
    rw [windows]
    split
    · rw [nil_append, flatten_cons, cons_append, ih]
    · rw [cons_append, ih]

theorem le_of_mem_windows (hts : ts.Pairwise (· ≤ ·)) :
    ∀ y ∈ (windows start ts).2.flatten, start + second ≤ y := by
  induction ts generalizing start with
  | nil => exact fun y hy => by cases hy
  | cons t ts ih =>
    rw [pairwise_cons] at hts
    rw [windows]
    split
    next ht =>
      rw [flatten_cons, cons_append, windows_flatten]
      exact forall_mem_cons.2 ⟨ht, fun y hy => ht.trans (hts.1 y hy)⟩
    next => exact ih hts.2

theorem le_of_mem_windows_tail (hts : ts.Pairwise (· ≤ ·)) {w : List ℕ} {ws : List (List ℕ)}
    (hws : (windows start ts).2 = w :: ws) : ∀ y ∈ ws.flatten, start + second + second ≤ y := by
  induction ts generalizing start with
  | nil => cases hws
  | cons t ts ih =>
    rw [pairwise_cons] at hts
    rw [windows] at hws
    split at hws
    next ht =>
      obtain ⟨rfl, rfl⟩ := cons_eq_cons.1 hws
      exact fun y hy => (Nat.add_le_add_right ht second).trans (le_of_mem_windows hts.2 y hy)
    next => exact ih hts.2 hws

/-- What comes two windows later is a second later: the window between takes a second. -/
theorem windows_far (hts : ts.Pairwise (· ≤ ·)) {w w' : List ℕ} {ws : List (List ℕ)}
    (hws : w :: w' :: ws <:+ (windows start ts).1 :: (windows start ts).2) :
    ∀ x ∈ w, ∀ y ∈ ws.flatten, x + second ≤ y := by
  induction ts generalizing start w with
  | nil =>
    have hlength := hws.length_le
    simp [windows] at hlength
  | cons t ts ih =>
    rw [pairwise_cons] at hts
    rw [windows] at hws
    split at hws
    next =>
      rcases suffix_cons_iff.1 hws with heq | hws
      · obtain ⟨rfl, _⟩ := cons_eq_cons.1 heq
        exact fun x hx => absurd hx not_mem_nil
      rcases suffix_cons_iff.1 hws with heq | hws
      · -- The window that `t` begins.
        obtain ⟨hw, htail⟩ := cons_eq_cons.1 heq
        rw [hw]
        refine forall_mem_cons.2 ⟨fun y hy => le_of_mem_windows hts.2 y ?_,
          ih hts.2 ⟨[], congrArg (cons _) htail⟩⟩
        rw [← htail]
        exact mem_append_right w' hy
      · exact ih hts.2 (suffix_cons_iff.2 (.inr hws))
    next ht =>
      rcases suffix_cons_iff.1 hws with heq | hws
      · obtain ⟨hw, htail⟩ := cons_eq_cons.1 heq
        rw [hw]
        refine forall_mem_cons.2 ⟨fun y hy => ?_, ih hts.2 ⟨[], congrArg (cons _) htail⟩⟩
        have := le_of_mem_windows_tail hts.2 htail.symm y hy
        omega
      · exact ih hts.2 (suffix_cons_iff.2 (.inr hws))

theorem flatMap_take_sublist (n : ℕ) (ws : List (List ℕ)) :
    (ws.flatMap (take n)).Sublist ws.flatten := by
  induction ws with
  | nil => exact Sublist.refl _
  | cons w ws ih => exact (take_sublist n w).append ih

/-- No second has more than 200 of the instants that windows let through just when each window is
    spread against the next one, as what comes two windows later is a second later anyway. -/
theorem apart_iff_isChain_spread {ws : List (List ℕ)} (hfar : ∀ w w' ws', w :: w' :: ws' <:+ ws →
    ∀ x ∈ w, ∀ y ∈ ws'.flatten, x + second ≤ y) :
    Apart rateLimitPerSec second (ws.flatMap (take rateLimitPerSec)) ↔ ws.IsChain Spread := by
  induction ws with
  | nil => simp [Apart]
  | cons w ws ih =>
    rw [flatMap_cons, Apart.append_iff (length_take_le _ w),
      ih fun v v' ws' h => hfar v v' ws' (suffix_cons_iff.2 (.inr h))]
    cases ws with
    | nil => simp
    | cons w' ws =>
      rw [isChain_cons_cons]
      refine and_congr_left fun _ =>
        ⟨fun h j k x y hx hy => h j k x y hx ?_, fun h j k x y hx hy hjk => ?_⟩
      · rw [flatMap_cons, getElem?_append_left (List.getElem?_eq_some_iff.1 hy).1, hy]
      · rw [flatMap_cons] at hy
        by_cases hk : k < (w'.take rateLimitPerSec).length
        · rw [getElem?_append_left hk] at hy
          exact h j k x y hx hy hjk
        · rw [getElem?_append_right (Nat.not_lt.1 hk)] at hy
          obtain ⟨v, hv, hyv⟩ := mem_flatMap.1 (mem_of_getElem? hy)
          exact hfar w w' ws suffix_rfl x (mem_of_mem_take (mem_of_getElem? hx)) y
            (mem_flatten.2 ⟨v, hv, mem_of_mem_take hyv⟩)

theorem lt_windowStart_allow (r : RateLimiter) (now : ℕ) :
    now < (r.allow now).1.windowStart + second := by
  have hpos : 0 < second := by decide
  cases h : r.restarts now with
  | true =>
    rw [allow_of_restarts h]
    exact Nat.lt_add_of_pos_right hpos
  | false =>
    rw [allow_of_not_restarts h]
    rw [← Bool.not_eq_true, restarts_iff] at h
    exact Nat.not_le.1 h

/-! ## Refusals -/

def Counted (r : RateLimiter) (seen : List ℕ) : Prop := r.count ≤ seen.countP (r.windowStart ≤ ·)

theorem Counted.allow {seen : List ℕ} (h : r.Counted seen) (hle : r.windowStart ≤ now) :
    (r.allow now).1.Counted (seen ++ [now]) := by
  rw [Counted, countP_append]
  cases hrestarts : r.restarts now with
  | true =>
    rw [allow_of_restarts hrestarts, countP_singleton, if_pos (decide_eq_true le_rfl)]
    exact Nat.le_add_left _ _
  | false =>
    rw [allow_of_not_restarts hrestarts, countP_singleton, if_pos (decide_eq_true hle)]
    exact Nat.add_le_add_right h 1

theorem windowStart_allow_le (hle : r.windowStart ≤ now) : (r.allow now).1.windowStart ≤ now := by
  cases h : r.restarts now with
  | true => rw [allow_of_restarts h]
  | false => rwa [allow_of_not_restarts h]

theorem le_countP_of_refused {seen : List ℕ} {before after : List Call} {c : Call}
    (hcount : r.Counted seen) (hle : ∀ t ∈ ts, r.windowStart ≤ t) (hts : ts.Pairwise (· ≤ ·))
    (h : r.calls ts = before ++ c :: after) (hc : c.allowed = false) :
    rateLimitPerSec ≤ (seen ++ before.map Call.now).countP fun t => c.now < t + second := by
  induction ts generalizing r seen before with
  | nil => cases before <;> cases h
  | cons now ts ih =>
    rw [pairwise_cons] at hts
    rw [forall_mem_cons] at hle
    cases before with
    | nil =>
      obtain ⟨rfl, -⟩ := List.cons.inj h
      cases hrestarts : r.restarts now with
      | true =>
        rw [allow_of_restarts hrestarts] at hc
        cases hc
      | false =>
        have hlt := lt_windowStart_allow r now
        rw [allow_of_not_restarts hrestarts] at hc hlt
        rw [decide_eq_false_iff_not, Nat.not_lt] at hc
        rw [map_nil, append_nil]
        calc rateLimitPerSec ≤ r.count := hc
          _ ≤ seen.countP (r.windowStart ≤ ·) := hcount
          _ ≤ seen.countP fun t => now < t + second := by
            refine countP_mono_left fun t _ ht => ?_
            rw [decide_eq_true_eq] at ht ⊢
            exact hlt.trans_le (Nat.add_le_add_right ht second)
    | cons d before =>
      obtain ⟨rfl, hrest⟩ := List.cons.inj h
      have hstart : ∀ t ∈ ts, (r.allow now).1.windowStart ≤ t := fun t ht =>
        (windowStart_allow_le hle.1).trans (hts.1 t ht)
      have hseen := ih (hcount.allow hle.1) hstart hts.2 hrest
      rwa [append_assoc, singleton_append] at hseen

/-- No second has more than 200 allowed calls just when each window is spread against the next one.
    A call is refused only after enough calls in the second before it. -/
theorem allowed_le_iff {start : ℕ} {ts : List ℕ} (hts : (start :: ts).Pairwise (· ≤ ·)) :
    let cs := (new start).calls ts
    ((∀ a, allowedIn cs a (a + second) ≤ rateLimitPerSec) ↔
      ((windows start ts).1 :: (windows start ts).2).IsChain Spread) ∧
    ∀ before c after, cs = before ++ c :: after → c.allowed = false →
      rateLimitPerSec ≤ before.countP fun d => c.now < d.now + second := by
  intro cs
  rw [pairwise_cons] at hts
  refine ⟨?_, fun before c after heq hc => ?_⟩
  · have hadmitted : admitted cs =
        ((windows start ts).1 :: (windows start ts).2).flatMap (take rateLimitPerSec) :=
      admitted_calls (new start) ts
    have hsorted : (admitted cs).Pairwise (· ≤ ·) := by
      rw [hadmitted]
      refine hts.2.sublist ((flatMap_take_sublist _ _).trans ?_)
      rw [flatten_cons, windows_flatten]
    rw [← apart_iff_isChain_spread fun w w' ws hws => windows_far hts.2 hws, ← hadmitted,
      ← Apart.countP_le_iff hsorted]
    simp only [allowedIn_eq]
  · have hseen :=
      le_countP_of_refused (show (new start).Counted [] from Nat.zero_le _) hts.1 hts.2 heq hc
    rwa [nil_append, countP_map] at hseen

theorem allowed_le_iff_spread :
    let ts := List.replicate rateLimitPerSec (second / 2) ++
      List.replicate rateLimitPerSec (second / 2 + second)
    (∀ a, allowedIn ((new 0).calls ts) a (a + second) ≤ rateLimitPerSec) ∧
      ∀ before c after, (new 0).calls ts = before ++ c :: after → c.allowed = false →
        rateLimitPerSec ≤ before.countP fun d => c.now < d.now + second := by
  intro ts
  have h := @allowed_le_iff 0 ts (by decide +kernel)
  have hwindows : windows 0 ts = (List.replicate rateLimitPerSec (second / 2),
      [List.replicate rateLimitPerSec (second / 2 + second)]) := by
    decide +kernel
  refine ⟨h.1.2 ?_, h.2⟩
  rw [hwindows, isChain_pair]
  intro j k x y hx hy _
  rw [eq_of_mem_replicate (mem_of_mem_take (mem_of_getElem? hx)),
    eq_of_mem_replicate (mem_of_mem_take (mem_of_getElem? hy))]

theorem allowedIn_around_start :
    let ts := List.replicate rateLimitPerSec (second - 1) ++ List.replicate rateLimitPerSec second
    ((0 :: ts).Pairwise (· ≤ ·)) ∧
      allowedIn ((new 0).calls ts) (second - 1) (second - 1 + second) = 2 * rateLimitPerSec := by
  decide +kernel

end RateLimiter

end Tropel
