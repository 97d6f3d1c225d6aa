import Tropel.Lib.Encodings
import Tropel.Lib.IndexMap
import Tropel.Lib.Machine

/-!
# Signing keys

AWS signing keys are derived by a chain of HMACs, and kept in a cache that all callers share.

* `keyCache_transparent_iff`: when every call gets its own key.
-/

namespace Tropel

open Lib List Option IndexMap

structure SigningArgs where
  secret : Text
  date : Text
  region : Text
  service : Text
  deriving DecidableEq

def cacheKey (a : SigningArgs) : Text :=
  a.secret ++ '|' :: (a.date ++ '|' :: (a.region ++ '|' :: a.service))

abbrev HmacSha256 := List UInt8 → List UInt8 → List UInt8

def deriveKey (hmac : HmacSha256) (a : SigningArgs) : List UInt8 :=
  let kDate := hmac (utf8 ("AWS4" ++ a.secret)) (utf8 a.date)
  let kRegion := hmac kDate (utf8 a.region)
  let kService := hmac kRegion (utf8 a.service)
  hmac kService (utf8 "aws4_request")

structure KeyCacheState where
  cache : IndexMap Text (List UInt8)
  pending : List SigningArgs
  returned : List (SigningArgs × List UInt8)

inductive KeyCacheAction
  | lookup (a : SigningArgs)
  | insert (i : ℕ)

def putKey (cache : IndexMap Text (List UInt8)) (name : Text)
    (key : List UInt8) : IndexMap Text (List UInt8) :=
  (if cache.length > 8 then ∅ else cache).insert name key

def keyCache (hmac : HmacSha256) : Machine KeyCacheState KeyCacheAction where
  step s
    | .lookup a =>
      match s.cache.get (cacheKey a) with
      | some key => some { s with returned := s.returned ++ [(a, key)] }
      | none => some { s with pending := s.pending ++ [a] }
    | .insert i =>
      match s.pending[i]? with
      | some a => some
        { cache := putKey s.cache (cacheKey a) (deriveKey hmac a)
          pending := s.pending.eraseIdx i
          returned := s.returned ++ [(a, deriveKey hmac a)] }
      | none => none

def KeyCacheState.start : KeyCacheState := ⟨∅, [], []⟩

variable (calls : Set SigningArgs)

def CallsIn (_ : KeyCacheState) : KeyCacheAction → Prop
  | .lookup a => a ∈ calls
  | .insert _ => True

theorem callsIn_insert (s : KeyCacheState) (i : ℕ) : CallsIn calls s (.insert i) := trivial

/-! ## What the cache holds -/

theorem get_putKey {cache : IndexMap Text (List UInt8)} {name name' : Text} {key key' : List UInt8}
    (h : (putKey cache name key).get name' = some key') :
    name' = name ∧ key' = key ∨ cache.get name' = some key' := by
  rw [putKey, get_insert] at h
  split at h
  next heq => exact .inl ⟨heq, (some.inj h).symm⟩
  · right
    split at h
    · cases h
    · exact h

theorem length_putKey_le (cache : IndexMap Text (List UInt8)) (name : Text) (key : List UInt8) :
    (putKey cache name key).length ≤ 9 := by
  have hlength : (if cache.length > 8 then ∅ else cache).length ≤ 8 := by
    split
    · exact Nat.zero_le 8
    next h => exact Nat.le_of_not_lt h
  rw [putKey, IndexMap.length_insert]
  revert hlength
  generalize (if cache.length > 8 then ∅ else cache) = cleared
  intro hlength
  split <;> omega

variable {action : KeyCacheAction}

theorem keyCache_step_cases {hmac : HmacSha256} {s s' : KeyCacheState}
    (h : (keyCache hmac).step s action = some s') :
    (∃ a key, action = .lookup a ∧ s.cache.get (cacheKey a) = some key ∧
      s' = { s with returned := s.returned ++ [(a, key)] }) ∨
    (∃ a, action = .lookup a ∧ s.cache.get (cacheKey a) = none ∧
      s' = { s with pending := s.pending ++ [a] }) ∨
    ∃ a i, s.pending[i]? = some a ∧
      s' = ⟨putKey s.cache (cacheKey a) (deriveKey hmac a), s.pending.eraseIdx i,
      s.returned ++ [(a, deriveKey hmac a)]⟩ := by
  cases action with
  | lookup a =>
    simp only [keyCache] at h
    split at h
    next key hget => exact .inl ⟨a, key, rfl, hget, (some.inj h).symm⟩
    next hget => exact .inr (.inl ⟨a, rfl, hget, (some.inj h).symm⟩)
  | insert i =>
    simp only [keyCache] at h
    split at h
    next a ha => exact .inr (.inr ⟨a, i, ha, (some.inj h).symm⟩)
    · cases h

structure KeyCacheState.Sound (calls : Set SigningArgs) (hmac : HmacSha256) (s : KeyCacheState) :
    Prop where
  cached : ∀ name key, s.cache.get name = some key → ∃ a ∈ calls, cacheKey a = name ∧
    deriveKey hmac a = key
  pending : ∀ a ∈ s.pending, a ∈ calls
  small : s.cache.length ≤ 9

theorem KeyCacheState.Sound.step {calls : Set SigningArgs} {hmac : HmacSha256}
    {s s' : KeyCacheState} (hsound : s.Sound calls hmac) (hcalls : CallsIn calls s action)
    (hstep : (keyCache hmac).step s action = some s') : s'.Sound calls hmac := by
  rcases keyCache_step_cases hstep with ⟨a, key, -, -, rfl⟩ | ⟨a, rfl, -, rfl⟩ | ⟨a, i, ha, rfl⟩
  · exact ⟨hsound.cached, hsound.pending, hsound.small⟩
  · refine ⟨hsound.cached, ?_, hsound.small⟩
    rw [forall_mem_append, forall_mem_singleton]
    exact ⟨hsound.pending, hcalls⟩
  · refine ⟨?_, fun b hb => hsound.pending b (mem_of_mem_eraseIdx hb), length_putKey_le _ _ _⟩
    intro name key hget
    rcases get_putKey hget with ⟨rfl, rfl⟩ | hold
    · exact ⟨a, hsound.pending a (mem_of_getElem? ha), rfl, rfl⟩
    · exact hsound.cached name key hold

theorem KeyCacheState.sound_start (hmac : HmacSha256) : start.Sound calls hmac where
  cached _ key h := absurd h.symm (Option.some_ne_none key)
  pending := forall_mem_nil _
  small := Nat.zero_le 9

variable {calls : Set SigningArgs} {hmac : HmacSha256} {s : KeyCacheState}

theorem sound_of_reachable (hs : (keyCache hmac).ReachableWith (CallsIn calls) .start s) :
    s.Sound calls hmac :=
  hs.invariant (KeyCacheState.sound_start calls hmac) fun hsound hcalls hstep =>
    hsound.step hcalls hstep

theorem returned_step {s' : KeyCacheState} (hinj : Set.InjOn cacheKey calls)
    (hsound : s.Sound calls hmac) (hreturned : ∀ r ∈ s.returned, r.2 = deriveKey hmac r.1)
    (hcalls : CallsIn calls s action) (hstep : (keyCache hmac).step s action = some s') :
    ∀ r ∈ s'.returned, r.2 = deriveKey hmac r.1 := by
  rcases keyCache_step_cases hstep with ⟨a, key, rfl, hget, rfl⟩ | ⟨a, -, -, rfl⟩ | ⟨a, i, -, rfl⟩
  · obtain ⟨b, hb, hname, hkey⟩ := hsound.cached _ _ hget
    obtain rfl := hinj hb hcalls hname
    rw [forall_mem_append, forall_mem_singleton]
    exact ⟨hreturned, hkey.symm⟩
  · exact hreturned
  · rw [forall_mem_append, forall_mem_singleton]
    exact ⟨hreturned, rfl⟩

theorem returned_of_reachable (hinj : Set.InjOn cacheKey calls)
    (hs : (keyCache hmac).ReachableWith (CallsIn calls) .start s) :
    ∀ r ∈ s.returned, r.2 = deriveKey hmac r.1 := by
  have hboth : s.Sound calls hmac ∧ ∀ r ∈ s.returned, r.2 = deriveKey hmac r.1 := by
    refine hs.invariant (P := fun s => s.Sound calls hmac ∧ ∀ r ∈ s.returned,
      r.2 = deriveKey hmac r.1)
      ⟨KeyCacheState.sound_start calls hmac, forall_mem_nil _⟩ ?_
    rintro s s' action ⟨hsound, hreturned⟩ hcalls hstep
    exact ⟨hsound.step hcalls hstep, returned_step hinj hsound hreturned hcalls hstep⟩
  exact hboth.2

def pairing (key message : List UInt8) : List UInt8 := key.flatMap (fun b => [0, b]) ++ 1 :: message

theorem pairing_inj {key key' message message' : List UInt8}
    (h : pairing key message = pairing key' message') :
    key = key' ∧ message = message' := by
  induction key generalizing key' with
  | nil =>
    cases key' with
    | nil => exact ⟨rfl, (List.cons.inj h).2⟩
    | cons b key' => exact absurd (List.cons.inj h).1 (by decide)
  | cons b key ih =>
    cases key' with
    | nil => exact absurd (List.cons.inj h).1 (by decide)
    | cons b' key' =>
      obtain ⟨rfl, hrest⟩ := List.cons.inj (List.cons.inj h).2
      have htail : pairing key message = pairing key' message' := hrest
      obtain ⟨rfl, rfl⟩ := ih htail
      exact ⟨rfl, rfl⟩

theorem deriveKey_pairing_injective : Function.Injective (deriveKey pairing) := by
  rintro ⟨secret, date, region, service⟩ ⟨secret', date', region', service'⟩ h
  obtain ⟨h, -⟩ := pairing_inj h
  obtain ⟨h, hservice⟩ := pairing_inj h
  obtain ⟨h, hregion⟩ := pairing_inj h
  obtain ⟨hsecret, hdate⟩ := pairing_inj h
  obtain rfl : service = service' := utf8_injective hservice
  obtain rfl : region = region' := utf8_injective hregion
  obtain rfl : date = date' := utf8_injective hdate
  obtain rfl : secret = secret' := append_cancel_left (utf8_injective hsecret)
  rfl

theorem exists_shared (hmac : HmacSha256) {a b : SigningArgs} (ha : a ∈ calls) (hb : b ∈ calls)
    (hname : cacheKey a = cacheKey b) :
    ∃ s, (keyCache hmac).ReachableWith (CallsIn calls) .start s ∧
      (b, deriveKey hmac a) ∈ s.returned := by
  let s₁ : KeyCacheState := ⟨∅, [a], []⟩
  let s₂ : KeyCacheState := ⟨putKey ∅ (cacheKey a) (deriveKey hmac a), [], [(a, deriveKey hmac a)]⟩
  let s₃ : KeyCacheState := { s₂ with returned := s₂.returned ++ [(b, deriveKey hmac a)] }
  have hget : s₂.cache.get (cacheKey b) = some (deriveKey hmac a) := by
    rw [← hname]
    exact (get_insert _ _ _ _).trans (if_pos rfl)
  have h₁ : (keyCache hmac).step .start (.lookup a) = some s₁ := rfl
  have h₂ : (keyCache hmac).step s₁ (.insert 0) = some s₂ := rfl
  have h₃ : (keyCache hmac).step s₂ (.lookup b) = some s₃ := by
    simp only [keyCache, hget]
    rfl
  have hcalled : CallsIn calls .start (.lookup a) := ha
  have hcalled' : CallsIn calls s₂ (.lookup b) := hb
  exact ⟨s₃, .step (.step (.step .refl hcalled h₁) (callsIn_insert _ _ 0) h₂) hcalled' h₃,
    mem_append_right _ mem_cons_self⟩

theorem exists_filled (hmac : HmacSha256) {l : List SigningArgs} (hcalls : ∀ a ∈ l, a ∈ calls)
    (hnodup : (l.map cacheKey).Nodup) (hlength : l.length ≤ 9) :
    ∃ s, (keyCache hmac).ReachableWith (CallsIn calls) .start s ∧ s.pending = [] ∧
      s.cache.entries.map Prod.fst = l.map cacheKey := by
  induction l using List.reverseRecOn with
  | nil => exact ⟨.start, .refl, rfl, rfl⟩
  | append_singleton l a ih =>
    rw [forall_mem_append, forall_mem_singleton] at hcalls
    rw [map_append, nodup_append] at hnodup
    rw [length_append, length_singleton] at hlength
    obtain ⟨s, hs, hpending, hkeys⟩ := ih hcalls.1 hnodup.1 (by omega)
    have hnew : cacheKey a ∉ s.cache.entries.map Prod.fst := by
      rw [hkeys]
      exact fun hmem => hnodup.2.2 _ hmem _ mem_cons_self rfl
    have hget : s.cache.get (cacheKey a) = none := find_eq_none hnew
    have hsize : s.cache.length ≤ 8 := by
      rw [IndexMap.length, ← length_map Prod.fst, hkeys, length_map]
      omega
    let s₁ : KeyCacheState := { s with pending := s.pending ++ [a] }
    let s₂ : KeyCacheState := ⟨putKey s.cache (cacheKey a) (deriveKey hmac a), [],
      s.returned ++ [(a, deriveKey hmac a)]⟩
    have h₁ : (keyCache hmac).step s (.lookup a) = some s₁ := by simp only [keyCache, hget, s₁]
    have h₂ : (keyCache hmac).step s₁ (.insert 0) = some s₂ := by
      simp only [keyCache, s₁, s₂, hpending]
      rfl
    have hcalled : CallsIn calls s (.lookup a) := hcalls.2
    refine ⟨s₂, .step (.step hs hcalled h₁) (callsIn_insert _ _ 0) h₂, rfl, ?_⟩
    change ((if s.cache.length > 8 then ∅ else s.cache).insert (cacheKey a) _).entries.map
      Prod.fst = _
    rw [if_neg (Nat.not_lt.2 hsize), keys_insert, if_neg hnew, hkeys, map_append, map_singleton]

theorem exists_calls_of_names {names : List Text}
    (h : ∀ name ∈ names, ∃ a ∈ calls, cacheKey a = name) :
    ∃ l : List SigningArgs, (∀ a ∈ l, a ∈ calls) ∧ l.map cacheKey = names := by
  induction names with
  | nil => exact ⟨[], forall_mem_nil _, rfl⟩
  | cons name names ih =>
    rw [forall_mem_cons] at h
    obtain ⟨a, ha, rfl⟩ := h.1
    obtain ⟨l, hl, rfl⟩ := ih h.2
    exact ⟨a :: l, forall_mem_cons.2 ⟨ha, hl⟩, rfl⟩

/-- For calls from a set, in any interleaving and with any HMAC: every call returns its own key just
    when no two share a name, and the cache never holds more than eight keys just when no nine have
    different names. -/
theorem keyCache_transparent_iff (calls : Set SigningArgs) :
    ((∀ hmac s, (keyCache hmac).ReachableWith (CallsIn calls) .start s → ∀ r ∈ s.returned,
      r.2 = deriveKey hmac r.1) ↔ Set.InjOn cacheKey calls) ∧
    ((∀ hmac s, (keyCache hmac).ReachableWith (CallsIn calls) .start s → s.cache.length ≤ 8) ↔
      ∀ l : List SigningArgs, (∀ a ∈ l, a ∈ calls) → (l.map cacheKey).Nodup → l.length ≤ 8) := by
  refine ⟨⟨fun h a ha b hb hname => ?_, fun hinj hmac s hs => returned_of_reachable hinj hs⟩,
    ?_, ?_⟩
  · obtain ⟨s, hs, hmem⟩ := exists_shared pairing ha hb hname
    exact deriveKey_pairing_injective (h pairing s hs _ hmem)
  · intro h l hcalls hnodup
    by_contra hlength
    -- nine of them fill the cache
    obtain ⟨s, hs, -, hkeys⟩ := exists_filled pairing (l := l.take 9)
      (fun a ha => hcalls a (mem_of_mem_take ha)) (hnodup.sublist ((take_sublist 9 l).map _))
      (length_take_le 9 l)
    have hsize := congrArg List.length hkeys
    rw [length_map, length_map, length_take] at hsize
    have hle := h pairing s hs
    rw [IndexMap.length] at hle
    omega
  · intro h hmac s hs
    have hcalls : ∀ name ∈ s.cache.entries.map Prod.fst, ∃ a ∈ calls, cacheKey a = name := by
      intro name hname
      obtain ⟨key, hkey⟩ := isSome_iff_exists.1 (mem_keys_iff.1 hname)
      obtain ⟨a, ha, hcache, -⟩ := (sound_of_reachable hs).cached name key hkey
      exact ⟨a, ha, hcache⟩
    obtain ⟨l, hl, hnames⟩ := exists_calls_of_names hcalls
    have hle := h l hl (hnames ▸ s.cache.nodup)
    rwa [← length_map cacheKey, hnames, length_map] at hle

theorem keyCache_leaks_key :
    let a : SigningArgs := ⟨"k", "d", "r|s", "t"⟩
    let b : SigningArgs := ⟨"k", "d", "r", "s|t"⟩
    let nine : List SigningArgs := (List.range 9).map fun i => ⟨[], [], [], List.replicate i 's'⟩
    (((keyCache pairing).exec .start [.lookup a, .insert 0, .lookup b]).map fun s =>
      s.returned.map fun r =>
        (r.1, decide (r.2 = deriveKey pairing r.1))) = some [(a, true), (b, false)] ∧
    ((keyCache pairing).exec .start (nine.flatMap fun a => [.lookup a, .insert 0])).map
      (fun s => s.cache.length) =
      some 9 := by
  decide +kernel

end Tropel
