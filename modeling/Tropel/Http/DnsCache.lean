import Tropel.Lib.IndexMap
import Tropel.Lib.Ip
import Tropel.Lib.Machine
import Tropel.Lib.SortBy

/-!
# The cache of resolved addresses

The addresses of a host are kept for some time, or forever.

* `dnsCache_bounded`: its size, and what it holds.
-/

namespace Tropel

open Lib List

structure SocketAddr where
  ip : IpAddr
  port : ℕ
  deriving DecidableEq

inductive DnsCacheMode
  | off
  | ttl (t : ℕ)
  | forever
  deriving DecidableEq

structure CacheEntry where
  addrs : List SocketAddr
  expiresAt : Option ℕ
  deriving DecidableEq

def CacheEntry.expires (e : CacheEntry) : WithTop ℕ := e.expiresAt.elim ⊤ fun t => (t : WithTop ℕ)

abbrev CacheStore := IndexMap Text CacheEntry

def maxCacheEntries : ℕ := 4096

structure IterOrder where
  iter : List (Text × CacheEntry) → List (Text × CacheEntry)
  perm : ∀ l, (iter l).Perm l

structure Readings where
  start : ℕ
  now : ℕ
  horizon : ℕ
  start_le : start ≤ now
  now_le : now ≤ horizon

namespace DnsCacheMode

variable (mode : DnsCacheMode)

def fresh (entry : CacheEntry) (now : ℕ) : Bool :=
  match mode with
  | .forever => true
  | .ttl _ => entry.expiresAt.any (now < ·)
  | .off => false

variable (store : CacheStore)

def cacheGet (host : Text) (now : ℕ) : Option (List SocketAddr) :=
  match mode with
  | .off => none
  | _ => (store.get host).bind fun entry => if mode.fresh entry now then some entry.addrs else none

def expiry (now : ℕ) : Option (Option ℕ) :=
  match mode with
  | .off => none
  | .forever => some none
  | .ttl t => if t = 0 then none else some (some (now + t))

def hundredYears : ℕ := 365 * 24 * 3600 * 100 * 10 ^ 9

def keysByExpiry (host : Text) (r : Readings) (order : IterOrder) : List (Text × ℕ) :=
  let forever := r.horizon + hundredYears
  sortByKey Prod.snd (((order.iter store.entries).filter (·.1 ≠ host)).map fun (k, e) =>
    (k, e.expiresAt.getD forever))

def victims (host : Text) (r : Readings) (order : IterOrder) : List Text :=
  if store.length ≥ maxCacheEntries then
    ((keysByExpiry store host r order).take (store.length + 1 - maxCacheEntries)).map Prod.fst
  else []

def unexpired (now : ℕ) : CacheStore := store.retain fun _ e => e.expiresAt.all (now < ·)

def cachePut (host : Text) (addrs : List SocketAddr) (r : Readings)
    (order : IterOrder) : CacheStore :=
  match mode.expiry r.start with
  | none => store
  | some expiresAt =>
    let store := unexpired store r.now
    let store := (victims store host r order).foldl IndexMap.erase store
    store.insert host ⟨addrs, expiresAt⟩

end DnsCacheMode

inductive CacheOp
  | get (host : Text) (now : ℕ)
  | put (host : Text) (addrs : List SocketAddr) (r : Readings) (order : IterOrder)

structure CacheState where
  store : CacheStore
  now : ℕ

def dnsCache (mode : DnsCacheMode) : Machine CacheState CacheOp where
  step s
    | .get _ now => if s.now ≤ now then some { s with now } else none
    | .put host addrs r order =>
      if s.now ≤ r.start then some ⟨mode.cachePut s.store host addrs r order, r.horizon⟩ else none

namespace DnsCacheMode

variable {mode : DnsCacheMode} {store : CacheStore} {host k : Text} {addrs : List SocketAddr}
  {r : Readings}
  {order : IterOrder}

/-! ## What a put removes -/

theorem get_unexpired (store : CacheStore) (now : ℕ) (k : Text) :
    (unexpired store now).get k = (store.get k).filter fun e => e.expiresAt.all (now < ·) :=
  IndexMap.get_retain _ _ _

theorem mem_keysByExpiry {t : ℕ} : (k, t) ∈ keysByExpiry store host r order ↔
    k ≠ host ∧ ∃ e, store.get k = some e ∧ t = e.expiresAt.getD (r.horizon + hundredYears) := by
  rw [keysByExpiry, (perm_sortByKey _ _).mem_iff, mem_map]
  constructor
  · rintro ⟨⟨k', e⟩, hmem, heq⟩
    cases heq
    obtain ⟨hmem, hne⟩ := mem_filter.1 hmem
    exact ⟨of_decide_eq_true hne, e,
      IndexMap.get_eq_some_iff.2 ((order.perm _).mem_iff.1 hmem), rfl⟩
  · rintro ⟨hne, e, he, rfl⟩
    exact ⟨(k, e),
      mem_filter.2 ⟨(order.perm _).mem_iff.2 (IndexMap.get_eq_some_iff.1 he), decide_eq_true hne⟩,
      rfl⟩

theorem nodup_keysByExpiry : ((keysByExpiry store host r order).map Prod.fst).Nodup := by
  rw [keysByExpiry, ((perm_sortByKey _ _).map _).nodup_iff, List.map_map]
  exact (((order.perm _).map _).nodup_iff.2 store.nodup).sublist (filter_sublist.map _)

theorem mem_victims_iff : k ∈ victims store host r order ↔ maxCacheEntries ≤ store.length ∧ ∃ t,
    (k, t) ∈
    (keysByExpiry store host r order).take (store.length + 1 - maxCacheEntries) := by
  rw [victims]
  split
  next hfull =>
    rw [mem_map, and_iff_right hfull]
    exact ⟨fun ⟨⟨_, t⟩, hmem, heq⟩ => ⟨t, heq ▸ hmem⟩, fun ⟨t, hmem⟩ => ⟨(k, t), hmem, rfl⟩⟩
  next hfull => exact iff_of_false not_mem_nil fun h => hfull h.1

theorem ne_host_of_mem_victims (h : k ∈ victims store host r order) :
    k ≠ host ∧ (store.get k).isSome := by
  obtain ⟨-, t, ht⟩ := mem_victims_iff.1 h
  obtain ⟨hne, e, he, -⟩ := mem_keysByExpiry.1 (mem_of_mem_take ht)
  exact ⟨hne, by rw [he]; rfl⟩

variable {now n : ℕ} {e e' : CacheEntry} {s s' : CacheState} {ops : List CacheOp} {op : CacheOp}
  {x : Option ℕ}
  {j : Text}

theorem get_cachePut (hx : mode.expiry r.start = some x) (k : Text) :
    (mode.cachePut store host addrs r order).get k =
      if k = host then some ⟨addrs, x⟩
      else if k ∈ victims (unexpired store r.now) host r order then none
      else (store.get k).filter fun e => e.expiresAt.all (r.now < ·) := by
  rw [cachePut, hx]
  rw [IndexMap.get_insert, IndexMap.foldl_erase_eq, IndexMap.get_retain, get_unexpired]
  split
  · rfl
  · by_cases hk : k ∈ victims (unexpired store r.now) host r order <;> simp [hk]

theorem cachePut_of_expiry_eq_none (hx : mode.expiry r.start = none) :
    mode.cachePut store host addrs r order = store := by
  rw [cachePut, hx]

theorem of_get_cachePut (h : (mode.cachePut store host addrs r order).get k = some e) :
    (k = host ∧ e.addrs = addrs) ∨ store.get k = some e := by
  cases hx : mode.expiry r.start with
  | none =>
    rw [cachePut_of_expiry_eq_none hx] at h
    exact .inr h
  | some x =>
    rw [get_cachePut hx] at h
    split at h
    next hk =>
      cases h
      exact .inl ⟨hk, rfl⟩
    · split at h
      · cases h
      · exact .inr (Option.filter_eq_some_iff.1 h).1

theorem exists_of_cacheGet (h : mode.cacheGet store host now = some addrs) :
    ∃ e, store.get host = some e ∧ e.addrs = addrs := by
  have hentry {mode : DnsCacheMode} (h : ((store.get host).bind fun entry =>
      if mode.fresh entry now then some entry.addrs else none) = some addrs) :
      ∃ e, store.get host = some e ∧ e.addrs = addrs := by
    obtain ⟨e, he, hsome⟩ := Option.bind_eq_some_iff.1 h
    exact ⟨e, he, (Option.ite_none_right_eq_some.1 hsome).2 |> Option.some.inj⟩
  cases mode with
  | off => cases h
  | forever | ttl t => exact hentry h

variable (store host r order) in
theorem length_keysByExpiry : store.length ≤ (keysByExpiry store host r order).length + 1 := by
  have hsplit := length_eq_length_filter_add (l := order.iter store.entries) (·.1 = host)
  have hone : ((order.iter store.entries).filter (·.1 = host)).length ≤ 1 := by
    have hnodup := ((order.perm store.entries).map Prod.fst).nodup_iff.2 store.nodup
    have hcount := nodup_iff_count_le_one.1 hnodup host
    rw [List.count, countP_map, countP_eq_length_filter] at hcount
    refine le_trans (le_of_eq (congrArg _ (filter_congr fun e _ => ?_))) hcount
    exact (beq_eq_decide _ _).symm
  have hkeys : (keysByExpiry store host r order).length =
      ((order.iter store.entries).filter fun e => !decide (e.1 = host)).length := by
    rw [keysByExpiry, (perm_sortByKey _ _).length_eq, length_map]
    exact congrArg _ (filter_congr fun e _ => decide_not)
  rw [(order.perm _).length_eq] at hsplit
  rw [IndexMap.length, hsplit, hkeys]
  omega

theorem nodup_victims : (victims store host r order).Nodup := by
  rw [victims]
  split
  · exact nodup_keysByExpiry.sublist ((take_sublist _ _).map _)
  · exact nodup_nil

variable (host r order) in
theorem victims_ne_nil (h : maxCacheEntries ≤ store.length) : victims store host r order ≠ [] := by
  have hkeys := length_keysByExpiry store host r order
  have hmax : maxCacheEntries = 4096 := rfl
  intro hnil
  rw [victims, if_pos h, map_eq_nil_iff, take_eq_nil_iff] at hnil
  rcases hnil with hnil | hnil
  · omega
  · rw [hnil, length_nil] at hkeys
    omega

theorem length_cachePut (h : store.length ≤ maxCacheEntries) :
    (mode.cachePut store host addrs r order).length ≤ maxCacheEntries := by
  rw [cachePut]
  split
  · exact h
  next x hx =>
    have hle : (unexpired store r.now).length ≤ maxCacheEntries :=
      (IndexMap.length_retain_le _ _).trans h
    have hhas : ∀ k ∈ victims (unexpired store r.now) host r order,
        ((unexpired store r.now).get k).isSome :=
      fun k hk => (ne_host_of_mem_victims hk).2
    have hlen := IndexMap.length_foldl_erase nodup_victims hhas
    rw [IndexMap.length_insert]
    by_cases hfull : maxCacheEntries ≤ (unexpired store r.now).length
    · have hpos := length_pos_iff.2 (victims_ne_nil host r order hfull)
      split <;> omega
    · split <;> omega

/-! ## The order of removal -/

variable (mode) in
def Uniform (store : CacheStore) : Prop := ∀ k e, store.get k = some e →
    ∃ n, mode.expiry n = some e.expiresAt

theorem Uniform.cachePut (h : mode.Uniform store) :
    mode.Uniform (mode.cachePut store host addrs r order) := by
  cases hx : mode.expiry r.start with
  | none => rwa [cachePut_of_expiry_eq_none hx]
  | some x =>
    intro k e he
    rw [get_cachePut hx] at he
    split at he
    · cases he
      exact ⟨r.start, hx⟩
    · split at he
      · cases he
      · exact h k e (Option.filter_eq_some_iff.1 he).1

theorem expiry_ne_none (h : mode.expiry n = some x) (m : ℕ) : mode.expiry m ≠ none := by
  cases mode with
  | off => cases h
  | forever => exact nofun
  | ttl t =>
    rw [expiry] at h ⊢
    split at h
    · cases h
    next ht =>
      rw [if_neg ht]
      exact nofun

theorem Uniform.get_eq_none (h : mode.Uniform store) (hn : mode.expiry n = none) (k : Text) :
    store.get k = none := by
  cases hk : store.get k with
  | none => rfl
  | some e =>
    obtain ⟨m, hm⟩ := h k e hk
    exact absurd hn (expiry_ne_none hm n)

theorem expires_le {n n' forever : ℕ} (he : mode.expiry n = some e.expiresAt)
    (he' : mode.expiry n' = some e'.expiresAt)
    (hle : e.expiresAt.getD forever ≤ e'.expiresAt.getD forever) :
    e.expires ≤ e'.expires := by
  rw [CacheEntry.expires, CacheEntry.expires]
  cases mode with
  | off => cases he
  | forever =>
    rw [← Option.some.inj he']
    exact le_top
  | ttl t =>
    rw [expiry] at he he'
    split at he
    · cases he
    next ht =>
      rw [if_neg ht] at he'
      rw [← Option.some.inj he, ← Option.some.inj he'] at hle ⊢
      exact WithTop.coe_le_coe.2 hle

theorem getD_le_of_mem_victims (hk : store.get k = some e)
    (hvictim : k ∈ victims store host r order) (hj : j ≠ host) (he' : store.get j = some e')
    (hsafe : j ∉ victims store host r order) :
    e.expiresAt.getD (r.horizon + hundredYears) ≤ e'.expiresAt.getD (r.horizon + hundredYears) := by
  obtain ⟨hfull, t, ht⟩ := mem_victims_iff.1 hvictim
  obtain ⟨-, e₀, he₀, rfl⟩ := mem_keysByExpiry.1 (mem_of_mem_take ht)
  cases hk.symm.trans he₀
  have hmem : (j, e'.expiresAt.getD (r.horizon + hundredYears)) ∈ keysByExpiry store host r order :=
    mem_keysByExpiry.2 ⟨hj, e', he', rfl⟩
  have hsorted : (keysByExpiry store host r order).Pairwise fun a b => a.2 ≤ b.2 :=
    pairwise_sortByKey _ _
  rw [← take_append_drop (store.length + 1 - maxCacheEntries) (keysByExpiry store host r order)]
    at hmem hsorted
  refine (pairwise_append.1 hsorted).2.2 _ ht _ ((mem_append.1 hmem).resolve_left fun hj => ?_)
  exact hsafe (mem_victims_iff.2 ⟨hfull, _, hj⟩)

theorem expires_le_of_removed (h : mode.Uniform store) (hk : store.get k = some e)
    (hfresh : e.expiresAt.all (r.now < ·) = true)
    (hnone : (mode.cachePut store host addrs r order).get k = none) (hj : j ≠ host)
    (hkept : (mode.cachePut store host addrs r order).get j = some e') :
    e.expires ≤ e'.expires := by
  cases hx : mode.expiry r.start with
  | none =>
    rw [cachePut_of_expiry_eq_none hx, hk] at hnone
    cases hnone
  | some x =>
    have hunexpired : (unexpired store r.now).get k = some e := by
      rw [get_unexpired, hk, Option.filter_some, if_pos hfresh]
    rw [get_cachePut hx, ← get_unexpired] at hnone hkept
    rw [if_neg hj] at hkept
    split at hnone
    · cases hnone
    split at hnone
    next hvictim =>
      split at hkept
      · cases hkept
      next hsafe =>
        obtain ⟨n, hn⟩ := h k e hk
        obtain ⟨n', hn'⟩ :=
          h j e' (Option.filter_eq_some_iff.1 (get_unexpired store r.now j ▸ hkept)).1
        exact expires_le hn hn' (getD_le_of_mem_victims hunexpired hvictim hj hkept hsafe)
    · cases hunexpired.symm.trans hnone

theorem lt_expires_iff : (now : WithTop ℕ) < e.expires ↔ e.expiresAt.all (now < ·) = true := by
  rw [CacheEntry.expires]
  cases e.expiresAt with
  | none => exact iff_of_true (WithTop.coe_lt_top now) rfl
  | some t => exact WithTop.coe_lt_coe.trans decide_eq_true_iff.symm

theorem lt_expires_of_ne (h : mode.Uniform store)
    (hk : (mode.cachePut store host addrs r order).get k = some e) (hne : k ≠ host) :
    (r.now : WithTop ℕ) < e.expires := by
  cases hx : mode.expiry r.start with
  | none =>
    rw [cachePut_of_expiry_eq_none hx, h.get_eq_none hx] at hk
    cases hk
  | some x =>
    rw [get_cachePut hx, if_neg hne] at hk
    split at hk
    · cases hk
    · exact lt_expires_iff.2 (Option.filter_eq_some_iff.1 hk).2

/-! ## What is found -/

def FreshAt (mode : DnsCacheMode) (r : Readings) (now : ℕ) : Prop :=
  ∃ x, mode.expiry r.start = some x ∧ x.all (now < ·) = true

theorem cacheGet_eq_some_iff (h : mode.Uniform store) : mode.cacheGet store host now = some addrs ↔
    ∃ x, store.get host = some ⟨addrs, x⟩ ∧ x.all (now < ·) = true := by
  have hfresh {e : CacheEntry} (he : store.get host = some e) :
      mode.fresh e now = e.expiresAt.all (now < ·) := by
    obtain ⟨n, hn⟩ := h host e he
    cases mode with
    | off => cases hn
    | forever =>
      rw [← Option.some.inj hn]
      rfl
    | ttl t =>
      rw [expiry] at hn
      split at hn
      · cases hn
      · rw [fresh, ← Option.some.inj hn]
        rfl
  have hget : mode.cacheGet store host now =
      (store.get host).bind fun entry => if mode.fresh entry now then some entry.addrs
        else none := by
    cases mode with
    | off =>
      cases hs : store.get host with
      | none => rfl
      | some e =>
        obtain ⟨n, hn⟩ := h host e hs
        cases hn
    | forever | ttl t => rfl
  rw [hget, Option.bind_eq_some_iff]
  constructor
  · rintro ⟨⟨as, x⟩, he, hsome⟩
    rw [hfresh he] at hsome
    split at hsome
    next hx =>
      cases hsome
      exact ⟨x, he, hx⟩
    · cases hsome
  · rintro ⟨x, he, hx⟩
    refine ⟨_, he, ?_⟩
    rw [hfresh he, if_pos hx]

theorem cacheGet_cachePut_of_ne (h : mode.Uniform store) {h' : Text} (hne : host ≠ h')
    (as : List SocketAddr) (hnow : r.horizon ≤ now) :
    mode.cacheGet (mode.cachePut store h' as r order) host now = some addrs ↔
      mode.cacheGet store host now = some addrs ∧
        host ∉ victims (unexpired store r.now) h' r order := by
  have hput : mode.Uniform (mode.cachePut store h' as r order) := h.cachePut
  rw [cacheGet_eq_some_iff h, cacheGet_eq_some_iff hput]
  cases hx : mode.expiry r.start with
  | none =>
    rw [cachePut_of_expiry_eq_none hx, h.get_eq_none hx]
    exact iff_of_false (fun ⟨_, h, _⟩ => nomatch h) (fun ⟨⟨_, h, _⟩, _⟩ => nomatch h)
  | some x =>
    simp only [get_cachePut hx, if_neg hne]
    constructor
    · rintro ⟨y, hy, hfresh⟩
      split at hy
      · cases hy
      next hsafe => exact ⟨⟨y, (Option.filter_eq_some_iff.1 hy).1, hfresh⟩, hsafe⟩
    · rintro ⟨⟨y, hy, hfresh⟩, hsafe⟩
      refine ⟨y, ?_, hfresh⟩
      -- What is fresh now was so when the put removed what had expired.
      have hunexpired : y.all (r.now < ·) = true := by
        cases y with
        | none => rfl
        | some t =>
          have hlt : now < t := of_decide_eq_true hfresh
          have hle := r.now_le
          exact decide_eq_true (by omega)
      rw [if_neg hsafe, hy, Option.filter_some, if_pos hunexpired]

theorem cacheGet_cachePut_self (h : mode.Uniform store) (as : List SocketAddr) :
    mode.cacheGet (mode.cachePut store host as r order) host now = some addrs ↔
      as = addrs ∧ mode.FreshAt r now := by
  have hput : mode.Uniform (mode.cachePut store host as r order) := h.cachePut
  rw [cacheGet_eq_some_iff hput, FreshAt]
  cases hx : mode.expiry r.start with
  | none =>
    rw [cachePut_of_expiry_eq_none hx, h.get_eq_none hx]
    exact iff_of_false (fun ⟨_, h, _⟩ => nomatch h) (fun ⟨_, _, h, _⟩ => nomatch h)
  | some x =>
    simp only [get_cachePut hx, ↓reduceIte, Option.some.injEq, CacheEntry.mk.injEq]
    constructor
    · rintro ⟨y, ⟨rfl, rfl⟩, hfresh⟩
      exact ⟨rfl, x, rfl, hfresh⟩
    · rintro ⟨rfl, y, rfl, hfresh⟩
      exact ⟨x, ⟨rfl, rfl⟩, hfresh⟩

def Spares (s : CacheState) (host : Text) : CacheOp → Prop
  | .get _ _ => True
  | .put h _ r order => host ≠ h ∧ host ∉ victims (unexpired s.store r.now) h r order

variable (mode host) in
def Undisturbed (s : CacheState) : List CacheOp → Prop
  | [] => True
  | op :: ops => Spares s host op ∧ ∀ s', (dnsCache mode).step s op = some s' → Undisturbed s' ops

theorem undisturbed_append_singleton : Undisturbed mode host s (ops ++ [op]) ↔
    Undisturbed mode host s ops ∧
      ∀ s', (dnsCache mode).exec s ops = some s' → Spares s' host op := by
  induction ops generalizing s with
  | nil => simp [Undisturbed, Machine.exec]
  | cons op' ops ih =>
    rw [cons_append, Undisturbed, Undisturbed]
    simp only [ih, Machine.exec, Option.bind_eq_some_iff]
    constructor
    · rintro ⟨hspare, h⟩
      refine ⟨⟨hspare, fun s' hs' => (h s' hs').1⟩, ?_⟩
      rintro s'' ⟨s', hs', hs''⟩
      exact (h s' hs').2 s'' hs''
    · rintro ⟨⟨hspare, h⟩, hlast⟩
      exact ⟨hspare, fun s' hs' => ⟨h s' hs', fun s'' hs'' => hlast s'' ⟨s', hs', hs''⟩⟩⟩

variable (mode host) in
def LastPut (ops : List CacheOp) (addrs : List SocketAddr) (now : ℕ) : Prop :=
  ∃ before r order after s, ops = before ++ .put host addrs r order :: after ∧ mode.FreshAt r now ∧
    (dnsCache mode).exec ⟨∅, 0⟩ (before ++ [.put host addrs r order]) = some s ∧
      Undisturbed mode host s after

theorem lastPut_append_singleton
    (hs : (dnsCache mode).exec ⟨∅, 0⟩ ops = some s) (hs' : (dnsCache mode).step s op = some s') :
    LastPut mode host (ops ++ [op]) addrs now ↔
      (∃ r order, op = .put host addrs r order ∧ mode.FreshAt r now) ∨
      LastPut mode host ops addrs now ∧ Spares s host op := by
  constructor
  · rintro ⟨before, r, order, after, s₁, heq, hfresh, hexec, hund⟩
    rcases eq_nil_or_concat after with rfl | ⟨after, last, rfl⟩
    · obtain ⟨-, hop⟩ := append_inj' heq rfl
      exact .inl ⟨r, order, singleton_inj.1 hop, hfresh⟩
    · rw [concat_eq_append, ← cons_append, ← append_assoc] at heq
      obtain ⟨rfl, hop⟩ := append_inj' heq rfl
      obtain rfl := singleton_inj.1 hop
      rw [concat_eq_append] at hund
      obtain ⟨hund, hspare⟩ := undisturbed_append_singleton.1 hund
      refine .inr ⟨⟨before, r, order, after, s₁, rfl, hfresh, hexec, hund⟩, hspare s ?_⟩
      rwa [← singleton_append, ← append_assoc, Machine.exec_append, hexec] at hs
  · rintro (⟨r, order, rfl, hfresh⟩ | ⟨⟨before, r, order, after, s₁, rfl, hfresh, hexec, hund⟩,
      hspare⟩)
    · refine ⟨ops, r, order, [], s', rfl, hfresh, ?_, trivial⟩
      rw [Machine.exec_append_singleton, hs]
      exact hs'
    · refine ⟨before, r, order, after ++ [op], s₁, by simp, hfresh, hexec,
        undisturbed_append_singleton.2 ⟨hund, fun s₂ hs₂ => ?_⟩⟩
      rw [← singleton_append, ← append_assoc, Machine.exec_append, hexec] at hs
      cases hs.symm.trans hs₂
      exact hspare

/-! ## Runs -/

theorem step_cases (h : (dnsCache mode).step s op = some s') :
    s.now ≤ s'.now ∧ ((∃ host now, op = .get host now ∧ s'.store = s.store) ∨
      ∃ host addrs r order, op = .put host addrs r order ∧
        s'.store = mode.cachePut s.store host addrs r order ∧
        s'.now = r.horizon) := by
  cases op with
  | get host now =>
    obtain ⟨hle, hs'⟩ := Option.ite_none_right_eq_some.1 h
    cases hs'
    exact ⟨hle, .inl ⟨host, now, rfl, rfl⟩⟩
  | put host addrs r order =>
    obtain ⟨hle, hs'⟩ := Option.ite_none_right_eq_some.1 h
    cases hs'
    exact ⟨hle.trans (r.start_le.trans r.now_le), .inr ⟨host, addrs, r, order, rfl, rfl, rfl⟩⟩

variable (mode) in
structure Valid (store : CacheStore) : Prop where
  length_le : store.length ≤ maxCacheEntries
  uniform : mode.Uniform store

theorem Valid.step (hs : mode.Valid s.store) (h : (dnsCache mode).step s op = some s') :
    mode.Valid s'.store := by
  obtain ⟨-, ⟨host, now, -, hstore⟩ | ⟨host, addrs, r, order, -, hstore, -⟩⟩ := step_cases h
  · rwa [hstore]
  · rw [hstore]
    exact ⟨length_cachePut hs.length_le, hs.uniform.cachePut⟩

theorem valid_of_exec (h : (dnsCache mode).exec ⟨∅, 0⟩ ops = some s) : mode.Valid s.store :=
  (Machine.reachable_of_exec h).invariant ⟨Nat.zero_le _, nofun⟩ Valid.step

theorem cacheGet_iff_lastPut (h : (dnsCache mode).exec ⟨∅, 0⟩ ops = some s) (hnow : s.now ≤ now) :
    mode.cacheGet s.store host now = some addrs ↔ LastPut mode host ops addrs now := by
  induction ops using List.reverseRecOn generalizing s with
  | nil =>
    cases h
    have hempty : mode.Uniform ∅ := fun k e he => by cases he
    refine iff_of_false (fun hget => ?_) fun ⟨before, r, order, after, _, heq, _⟩ => ?_
    · obtain ⟨x, hx, -⟩ := (cacheGet_eq_some_iff hempty).1 hget
      cases hx
    · exact append_ne_nil_of_right_ne_nil _ (cons_ne_nil _ _) heq.symm
  | append_singleton ops op ih =>
    rw [Machine.exec_append_singleton] at h
    obtain ⟨s₀, hs₀, hstep⟩ := Option.bind_eq_some_iff.1 h
    have hvalid := valid_of_exec hs₀
    obtain ⟨hle, ⟨h', now', rfl, hstore⟩ | ⟨h', as, r, order, rfl, hstore, hhorizon⟩⟩ :=
      step_cases hstep
    · rw [lastPut_append_singleton hs₀ hstep, hstore, ih hs₀ (hle.trans hnow)]
      simp [Spares]
    · rw [lastPut_append_singleton hs₀ hstep, hstore, ← ih hs₀ (hle.trans hnow)]
      by_cases hne : host = h'
      · subst hne
        rw [cacheGet_cachePut_self hvalid.uniform]
        constructor
        · rintro ⟨rfl, hfresh⟩
          exact .inl ⟨r, order, rfl, hfresh⟩
        · rintro (⟨r', order', heq, hfresh⟩ | ⟨-, hspare⟩)
          · cases heq
            exact ⟨rfl, hfresh⟩
          · exact absurd rfl hspare.1
      · rw [cacheGet_cachePut_of_ne hvalid.uniform hne as (hhorizon ▸ hnow)]
        constructor
        · rintro ⟨hget, hsafe⟩
          exact .inr ⟨hget, hne, hsafe⟩
        · rintro (⟨r', order', heq, -⟩ | ⟨hget, hspare⟩)
          · cases heq
            exact absurd rfl hne
          · exact ⟨hget, hspare.2⟩

/-- In every run under a clock that does not go back: the cache is never too large; a put removes
    the expired entries of other hosts, and leaves its own one unless its time has run out
    meanwhile; what else it removes expires no later than what it keeps; and what is found is what
    was put last and not removed since. -/
theorem dnsCache_bounded {mode : DnsCacheMode} {ops : List CacheOp} {s : CacheState}
    (h : (dnsCache mode).exec ⟨∅, 0⟩ ops = some s) :
    s.store.length ≤ maxCacheEntries ∧
    (∀ host addrs r order s', (dnsCache mode).step s (.put host addrs r order) = some s' →
      (∀ k e, s'.store.get k = some e → k ≠ host → (r.now : WithTop ℕ) < e.expires) ∧
      (∀ e, s'.store.get host = some e → mode.FreshAt r r.now → (r.now : WithTop ℕ) < e.expires) ∧
      ∀ k e, s.store.get k = some e → (r.now : WithTop ℕ) < e.expires → s'.store.get k = none →
        ∀ j e', j ≠ host → s'.store.get j = some e' → e.expires ≤ e'.expires) ∧
    ∀ host now addrs, s.now ≤ now →
      (mode.cacheGet s.store host now = some addrs ↔ LastPut mode host ops addrs now) := by
  have hvalid := valid_of_exec h
  refine ⟨hvalid.length_le, fun host addrs r order s' hstep => ?_,
    fun host now addrs => cacheGet_iff_lastPut h⟩
  obtain ⟨-, hs'⟩ := Option.ite_none_right_eq_some.1 hstep
  cases hs'
  refine ⟨fun k e hk hne => lt_expires_of_ne hvalid.uniform hk hne, fun e he hfresh => ?_,
    fun k e hk hlt hnone j e' hj hkept =>
      expires_le_of_removed hvalid.uniform hk (lt_expires_iff.1 hlt) hnone hj hkept⟩
  obtain ⟨x, hx, hall⟩ := hfresh
  rw [get_cachePut hx, if_pos rfl] at he
  cases he
  exact lt_expires_iff.2 hall

def readAt (n : ℕ) : Readings := ⟨n, n, n, le_rfl, le_rfl⟩

def inOrder : IterOrder := ⟨id, fun _ => .refl _⟩

theorem dnsCache_bounded_two : ∃ s, (dnsCache (.ttl 10)).exec ⟨∅, 0⟩
      [.put ['a'] [⟨.v4 1, 0⟩] (readAt 0) inOrder, .put ['b'] [⟨.v4 2, 0⟩] (readAt 5) inOrder] =
        some s ∧
    s.store.length ≤ maxCacheEntries ∧
    cacheGet (.ttl 10) s.store ['b'] 12 = some [⟨.v4 2, 0⟩] ∧
      cacheGet (.ttl 10) s.store ['a'] 12 = none ∧
    LastPut (.ttl 10) ['b'] [.put ['a'] [⟨.v4 1, 0⟩] (readAt 0) inOrder,
      .put ['b'] [⟨.v4 2, 0⟩] (readAt 5) inOrder] [⟨.v4 2, 0⟩] 12 := by
  obtain ⟨s, hs⟩ : ∃ s,
      (dnsCache (.ttl 10)).exec ⟨∅, 0⟩ [.put ['a'] [⟨.v4 1, 0⟩] (readAt 0) inOrder,
      .put ['b'] [⟨.v4 2, 0⟩] (readAt 5) inOrder] = some s := ⟨_, rfl⟩
  obtain ⟨hlen, -, hfound⟩ := dnsCache_bounded hs
  have hget : cacheGet (.ttl 10) s.store ['b'] 12 = some [⟨.v4 2, 0⟩] ∧
      cacheGet (.ttl 10) s.store ['a'] 12 = none ∧ s.now ≤ 12 := by
    cases hs
    decide
  exact ⟨s, hs, hlen, hget.1, hget.2.1, (hfound _ _ _ hget.2.2).1 hget.1⟩

theorem dnsCache_expired : ∃ (r : Readings) (s : CacheState), (dnsCache (.ttl 1)).exec ⟨∅, 0⟩
      [.put ['a'] [⟨.v4 1, 0⟩] r inOrder] = some s ∧
    ∃ e, s.store.get ['a'] = some e ∧ e.expires ≤ (r.now : WithTop ℕ) :=
  ⟨⟨0, 1, 1, Nat.zero_le _, le_rfl⟩, _, rfl, _, rfl, le_rfl⟩

end DnsCacheMode

end Tropel
