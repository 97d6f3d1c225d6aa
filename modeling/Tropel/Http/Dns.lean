import Mathlib.Data.List.Rotate
import Tropel.Http.Blacklist
import Tropel.Http.DnsCache
import Tropel.Http.Redirect

/-!
# Resolving a host

Any number of requests resolve hosts at the same time.

* `blacklist_enforced`: no blocked address is handed out;
* `preference_honoured`: the preferred family comes first.
-/

namespace Tropel

open Lib List Option Bool

inductive DnsSelect
  | first | roundRobin | random
  deriving DecidableEq

inductive DnsPolicy
  | any | preferV4 | preferV6 | onlyV4 | onlyV6
  deriving DecidableEq

def DnsPolicy.debug : DnsPolicy → String
  | any => "Any"
  | preferV4 => "PreferV4"
  | preferV6 => "PreferV6"
  | onlyV4 => "OnlyV4"
  | onlyV6 => "OnlyV6"

structure DnsConfig where
  cache : DnsCacheMode
  select : DnsSelect
  policy : DnsPolicy
  hosts : IndexMap Text (List SocketAddr)
  blacklist : List IpCidr

def hostsLookup (hosts : IndexMap Text (List SocketAddr))
    (host : Text) : Option (List SocketAddr) :=
  let h := host.map Char.toLower
  match hosts.get h with
  | some addrs => some addrs
  | none =>
    (hosts.entries.foldl (fun best (key, addrs) =>
      match stripStart ['*', '.'] key with
      | some suffix =>
        if byteLen ('.' :: suffix) < byteLen h ∧ ('.' :: suffix).isSuffixOf h ∧
          best.all (fun b => b.1 < byteLen suffix) then some (byteLen suffix, addrs)
        else best
      | none => best) (none : Option (ℕ × List SocketAddr))).map Prod.snd

def applyPolicy (addrs : List SocketAddr) : DnsPolicy → List SocketAddr
  | .any => addrs
  | .preferV4 => sortByKey (fun a => a.ip.isIpv6) addrs
  | .preferV6 => sortByKey (fun a => a.ip.isIpv4) addrs
  | .onlyV4 => addrs.filter fun a => a.ip.isIpv4
  | .onlyV6 => addrs.filter fun a => a.ip.isIpv6

def pseudoRandom (seed : UInt64) : UInt64 :=
  let x := seed + 0x9E3779B97F4A7C15
  let x := (x ^^^ (x >>> 30)) * 0xBF58476D1CE4E5B9
  let x := (x ^^^ (x >>> 27)) * 0x94D049BB133111EB
  x ^^^ (x >>> 31)

def selectAddrs (host : Text) (addrs : List SocketAddr) (select : DnsSelect)
    (rotation : IndexMap Text UInt64) :
    List SocketAddr × IndexMap Text UInt64 :=
  let rotated (offset : UInt64 → UInt64) :=
    if addrs.length ≤ 1 then (addrs, rotation)
    else
      let n := (rotation.get host).getD 0
      (addrs.rotate ((offset n).toNat % addrs.length), rotation.insert host (n + 1))
  match select with
  | .first => (addrs, rotation)
  | .roundRobin => rotated id
  | .random => rotated pseudoRandom

theorem selectAddrs_spec (host : Text) (addrs : List SocketAddr) (select : DnsSelect)
    (rotation : IndexMap Text UInt64) : (selectAddrs host addrs select rotation).1 ~r addrs ∧
      (select = .first → (selectAddrs host addrs select rotation).1 = addrs) := by
  have hrotate (k : ℕ) : addrs.rotate k ~r addrs := List.IsRotated.symm ⟨k, rfl⟩
  cases select with
  | first => exact ⟨.refl _, fun _ => rfl⟩
  | roundRobin | random =>
    refine ⟨?_, fun h => absurd h (by decide)⟩
    dsimp only [selectAddrs]
    split
    exacts [.refl _, hrotate _]

/-! ## The resolver -/

inductive Phase
  | lookup
  | waiting
  | selecting (addrs : List SocketAddr) (fresh : Bool)
  | putting (chosen : List SocketAddr)
  | done (result : Except String (List SocketAddr))

structure DnsState where
  store : CacheStore
  rotation : IndexMap Text UInt64
  tasks : List (Text × Phase)
  answers : List (Text × List SocketAddr)

inductive DnsAction
  | call (host : Text)
  | readCache (i : ℕ) (now : ℕ)
  | answer (i : ℕ) (r : Except String (List SocketAddr))
  | select (i : ℕ)
  | put (i : ℕ) (r : Readings) (order : IterOrder)

namespace DnsConfig

variable (cfg : DnsConfig)

def unblocked (addrs : List SocketAddr) : List SocketAddr :=
  addrs.filter fun a => !cfg.blacklist.any (·.contains a.ip)

def enter (host : Text) : Phase :=
  match hostsLookup cfg.hosts host with
  | some addrs =>
    if addrs ≠ [] ∧ cfg.unblocked addrs = [] then
      .done (.error s!"static host '{String.ofList host}' resolves only to blacklisted addresses")
    else .selecting (cfg.unblocked addrs) false
  | none => .lookup

def resolved (host : Text) : Except String (List SocketAddr) → Phase
  | .error e => .done (.error e)
  | .ok answer =>
    let addrs := applyPolicy answer cfg.policy
    if answer = [] then .done (.error s!"no addresses found for '{String.ofList host}'")
    else if addrs = [] then
      .done (.error s!"no addresses for '{String.ofList host}' match dns.policy {cfg.policy.debug}")
    else if cfg.unblocked addrs = [] then
      .done (.error s!"all resolved addresses for '{String.ofList host}' are blacklisted")
    else .selecting (cfg.unblocked addrs) true

def start : DnsState := ⟨∅, ∅, [], []⟩

def resolver : Machine DnsState DnsAction where
  step s
    | .call host => some { s with tasks := s.tasks ++ [(host, cfg.enter host)] }
    | .readCache i now =>
      match s.tasks[i]? with
      | some (host, .lookup) =>
        let phase := match cfg.cache.cacheGet s.store host now with
          | some addrs => .selecting addrs false
          | none => .waiting
        some { s with tasks := s.tasks.set i (host, phase) }
      | _ => none
    | .answer i r =>
      match s.tasks[i]? with
      | some (host, .waiting) =>
        some { s with
          tasks := s.tasks.set i (host, cfg.resolved host r)
          answers := s.answers ++ (r.toOption.map fun answer => (host, answer)).toList }
      | _ => none
    | .select i =>
      match s.tasks[i]? with
      | some (host, .selecting addrs fresh) =>
        let (chosen, rotation) := selectAddrs host addrs cfg.select s.rotation
        let phase := if fresh ∧ chosen ≠ [] then .putting chosen else .done (.ok chosen)
        some { s with rotation, tasks := s.tasks.set i (host, phase) }
      | _ => none
    | .put i r order =>
      match s.tasks[i]? with
      | some (host, .putting chosen) =>
        some { s with
          store := cfg.cache.cachePut s.store host chosen r order
          tasks := s.tasks.set i (host, .done (.ok chosen)) }
      | _ => none

/-! ## Where addresses come from -/

def Source (answers : List (Text × List SocketAddr)) (host : Text)
    (addrs : List SocketAddr) : Prop :=
  (∃ static, hostsLookup cfg.hosts host = some static ∧ addrs = cfg.unblocked static) ∨
  (hostsLookup cfg.hosts host = none ∧
    ∃ answer, (host, answer) ∈ answers ∧ addrs = cfg.unblocked (applyPolicy answer cfg.policy))

def Offered (answers : List (Text × List SocketAddr)) (host : Text)
    (addrs : List SocketAddr) : Prop :=
  ∃ source, cfg.Source answers host source ∧ addrs ~r source ∧
    (cfg.select = .first → addrs = source)

end DnsConfig

def Phase.Sound (cfg : DnsConfig) (answers : List (Text × List SocketAddr))
    (host : Text) : Phase → Prop
  | .lookup => hostsLookup cfg.hosts host = none
  | .waiting => hostsLookup cfg.hosts host = none
  | .selecting addrs fresh =>
    cfg.Offered answers host addrs ∧ (fresh = true → hostsLookup cfg.hosts host = none)
  | .putting chosen => cfg.Offered answers host chosen ∧ hostsLookup cfg.hosts host = none
  | .done (.ok addrs) => cfg.Offered answers host addrs
  | .done (.error _) => True

namespace DnsConfig

variable {cfg : DnsConfig} {answers answers' : List (Text × List SocketAddr)} {host : Text}
  {addrs : List SocketAddr}

theorem Offered.mono (h : cfg.Offered answers host addrs) (hsub : answers ⊆ answers') :
    cfg.Offered answers' host addrs := by
  obtain ⟨source, hsource, hrot, hfirst⟩ := h
  refine ⟨source, ?_, hrot, hfirst⟩
  rcases hsource with hstatic | ⟨hnone, answer, hmem, haddrs⟩
  · exact .inl hstatic
  · exact .inr ⟨hnone, answer, hsub hmem, haddrs⟩

theorem Source.offered (h : cfg.Source answers host addrs) : cfg.Offered answers host addrs :=
  ⟨addrs, h, .refl _, fun _ => rfl⟩

theorem Offered.select (h : cfg.Offered answers host addrs) (rotation : IndexMap Text UInt64) :
    cfg.Offered answers host (selectAddrs host addrs cfg.select rotation).1 := by
  obtain ⟨source, hsource, hrot, hfirst⟩ := h
  obtain ⟨hsel, hsame⟩ := selectAddrs_spec host addrs cfg.select rotation
  exact ⟨source, hsource, hsel.trans hrot, fun hs => (hsame hs).trans (hfirst hs)⟩

variable {family : IpAddr → Bool} {s : DnsState} {policy : DnsPolicy} {phase : Phase}

theorem sound_mono (h : phase.Sound cfg answers host) (hsub : answers ⊆ answers') :
    phase.Sound cfg answers' host := by
  cases phase with
  | lookup | waiting => exact h
  | selecting addrs fresh | putting chosen => exact ⟨h.1.mono hsub, h.2⟩
  | done result =>
    cases result with
    | error e => trivial
    | ok addrs => exact Offered.mono h hsub

variable (cfg answers host) in
theorem sound_enter : (cfg.enter host).Sound cfg answers host := by
  rw [enter]
  split
  next static hstatic =>
    split
    · trivial
    · exact ⟨Source.offered (.inl ⟨static, hstatic, rfl⟩), nofun⟩
  next hnone => exact hnone

theorem sound_resolved (hnone : hostsLookup cfg.hosts host = none)
    {r : Except String (List SocketAddr)}
    (hr : ∀ answer, r = .ok answer → (host, answer) ∈ answers) :
    (cfg.resolved host r).Sound cfg answers host := by
  cases r with
  | error e => trivial
  | ok answer =>
    dsimp only [resolved]
    split
    · trivial
    split
    · trivial
    split
    · trivial
    · exact ⟨Source.offered (.inr ⟨hnone, answer, hr answer rfl, rfl⟩), fun _ => hnone⟩

variable (cfg) in
structure Sound (s : DnsState) : Prop where
  store : ∀ host e, s.store.get host = some e → hostsLookup cfg.hosts host = none ∧
    cfg.Offered s.answers host e.addrs
  tasks : ∀ task ∈ s.tasks, task.2.Sound cfg s.answers task.1

theorem sound_start : cfg.Sound start := ⟨nofun, nofun⟩

theorem Sound.move (hs : cfg.Sound s) {i : ℕ} (hanswers : s.answers ⊆ answers')
    (hphase : phase.Sound cfg answers' host) : ∀ task ∈ s.tasks.set i (host, phase),
      task.2.Sound cfg answers' task.1 := by
  intro task htask
  rcases mem_or_eq_of_mem_set htask with hmem | rfl
  · exact sound_mono (hs.tasks task hmem) hanswers
  · exact hphase

theorem Sound.step {s s' : DnsState} {a : DnsAction} (hs : cfg.Sound s)
    (h : cfg.resolver.step s a = some s') :
    cfg.Sound s' := by
  have htask {i : ℕ} {host : Text} {phase : Phase} (hi : s.tasks[i]? = some (host, phase)) :
      phase.Sound cfg s.answers host := hs.tasks _ (mem_of_getElem? hi)
  cases a with
  | call host =>
    cases h
    refine ⟨hs.store, fun task hmem => ?_⟩
    rcases mem_append.1 hmem with hmem | hmem
    · exact hs.tasks task hmem
    · obtain rfl := mem_singleton.1 hmem
      exact sound_enter cfg s.answers host
  | readCache i now =>
    dsimp only [resolver] at h
    split at h
    next host hi =>
      cases h
      refine ⟨hs.store, hs.move (List.Subset.refl _) ?_⟩
      have hnone : hostsLookup cfg.hosts host = none := htask hi
      split
      next addrs hget =>
        obtain ⟨e, he, rfl⟩ := DnsCacheMode.exists_of_cacheGet hget
        exact ⟨(hs.store host e he).2, nofun⟩
      · exact hnone
    · cases h
  | answer i r =>
    dsimp only [resolver] at h
    split at h
    next host hi =>
      cases h
      have hsub : s.answers ⊆ s.answers ++ (r.toOption.map fun answer => (host, answer)).toList :=
        subset_append_left _ _
      refine ⟨fun k e he => ⟨(hs.store k e he).1, (hs.store k e he).2.mono hsub⟩,
        hs.move hsub (sound_resolved (htask hi) fun answer hr => ?_)⟩
      subst hr
      exact mem_append_right _ (mem_singleton_self _)
    · cases h
  | select i =>
    dsimp only [resolver] at h
    split at h
    next host addrs fresh hi =>
      cases h
      refine ⟨hs.store, hs.move (List.Subset.refl _) ?_⟩
      have hsel := (htask hi).1.select s.rotation
      split
      next hput => exact ⟨hsel, (htask hi).2 hput.1⟩
      · exact hsel
    · cases h
  | put i r order =>
    dsimp only [resolver] at h
    split at h
    next host chosen hi =>
      cases h
      refine ⟨fun k e he => ?_, hs.move (List.Subset.refl _) (htask hi).1⟩
      rcases DnsCacheMode.of_get_cachePut he with ⟨rfl, hchosen⟩ | he
      · rw [hchosen]
        exact ⟨(htask hi).2, (htask hi).1⟩
      · exact hs.store k e he
    · cases h

theorem sound_of_reachable (hs : cfg.resolver.Reachable start s) : cfg.Sound s :=
  hs.invariant sound_start Sound.step

/-! ## The blacklist -/

theorem Source.not_contains (h : cfg.Source answers host addrs) {a : SocketAddr} (ha : a ∈ addrs)
    {c : IpCidr} (hc : c ∈ cfg.blacklist) : c.contains a.ip = false := by
  have hunblocked {l : List SocketAddr} (ha : a ∈ cfg.unblocked l) : c.contains a.ip = false := by
    have hnot := (mem_filter.1 ha).2
    rw [not_eq_true'] at hnot
    exact eq_false_iff.2 (any_eq_false.1 hnot c hc)
  rcases h with ⟨static, -, rfl⟩ | ⟨-, answer, -, rfl⟩
  · exact hunblocked ha
  · exact hunblocked ha

/-- An entry of the blacklist contains what it covers unless it has all mapped addresses and others.
    Then, whatever DNS answers and however lookups interleave, no address is handed out, or accepted
    in a URL, that it covers. -/
theorem blacklist_enforced {cfg : DnsConfig} {entries : List Text}
    (hblacklist : cfg.blacklist = parseBlacklist entries) {entry : Text} (hentry : entry ∈ entries)
    {c : IpCidr} (hparse : IpCidr.parse entry = some c) :
    ((∀ ip, c.Covers ip → c.contains ip = true) ↔ ¬c.Straddles) ∧ (¬c.Straddles →
    (∀ s, cfg.resolver.Reachable start s → ∀ host addrs, (host, Phase.done (.ok addrs)) ∈ s.tasks →
      ∀ a ∈ addrs, ¬c.Covers a.ip) ∧
    ∀ {U J : Type} (lib : Reqwest U J) (url : String) (u : U) (host : String) (ip : IpAddr),
      lib.parse url = .ok u → lib.hostStr u = some host → hostAddr host.toList = some ip →
        c.Covers ip →
        ∃ e, checkLiteralBlacklist lib cfg.blacklist url = .error (.http e)) := by
  have hc : c ∈ cfg.blacklist := hblacklist ▸ mem_filterMap.2 ⟨entry, hentry, hparse⟩
  refine ⟨IpCidr.forall_contains_iff, fun hstraddle => ?_⟩
  constructor
  · intro s hs host addrs hdone a ha hcovers
    obtain ⟨source, hsource, hrot, -⟩ := (sound_of_reachable hs).tasks _ hdone
    have hcontains := hsource.not_contains (hrot.mem_iff.1 ha) hc
    rw [IpCidr.contains_of_covers hstraddle hcovers] at hcontains
    cases hcontains
  · intro U J lib url u host ip hurl hhost hip hcovers
    exact checkLiteralBlacklist_of_contains hurl hhost hip hc
      (IpCidr.contains_of_covers hstraddle hcovers)

def staticConfig (ip : IpAddr) (entry : Text) : DnsConfig where
  cache := .off
  select := .random
  policy := .preferV4
  hosts := ⟨[(['a'], [⟨ip, 0⟩, ⟨.v4 8, 0⟩])], List.nodup_singleton _⟩
  blacklist := parseBlacklist [entry]

theorem blacklist_enforced_mapped : ∃ s,
    (staticConfig (.v6 0xffff0a000001#128) "10.0.0.0/8").resolver.Reachable start s ∧
    (['a'], Phase.done (.ok [⟨.v4 8, 0⟩])) ∈ s.tasks ∧
    ∃ c, IpCidr.parse "10.0.0.0/8" = some c ∧ c.Covers (.v6 0xffff0a000001#128) ∧
      (∀ a ∈ ([⟨.v4 8, 0⟩] : List SocketAddr), ¬c.Covers a.ip) ∧
      ∃ e, checkLiteralBlacklist HttpClient.plainHttp (parseBlacklist ["10.0.0.0/8"])
        "http://[::ffff:a00:1]/" = .error (.http e) := by
  have hc : IpCidr.parse "10.0.0.0/8" = some ⟨.v4 0x0a000000#32, 8, by decide⟩ := by decide
  have hcovers : IpCidr.Covers ⟨.v4 0x0a000000#32, 8, by decide⟩ (.v6 0xffff0a000001#128) := by
    decide
  obtain ⟨hresolve, hliteral⟩ :=
    (@blacklist_enforced (staticConfig (.v6 0xffff0a000001#128) "10.0.0.0/8")
      _ rfl _ (mem_singleton_self _) _ hc).2 (by decide)
  have hexec : (staticConfig (.v6 0xffff0a000001#128) "10.0.0.0/8").resolver.exec start
      [.call ['a'], .select 0] = some ⟨∅, ∅, [(['a'], .done (.ok [⟨.v4 8, 0⟩]))], []⟩ := by rfl
  have hreach := Machine.reachable_of_exec hexec
  exact ⟨_, hreach, mem_singleton_self _, _, hc, hcovers,
    hresolve _ hreach _ _ (mem_singleton_self _),
      hliteral HttpClient.plainHttp _ _ _ _ rfl rfl (by decide) hcovers⟩

theorem blacklist_passes_mapped :
    ∃ s addrs, (staticConfig (.v6 0xffff0a000001#128) "::/0").resolver.Reachable start s ∧
    (['a'], Phase.done (.ok addrs)) ∈ s.tasks ∧ ⟨.v6 0xffff0a000001#128, 0⟩ ∈ addrs ∧
    ∃ c, IpCidr.parse "::/0" = some c ∧ c.Covers (.v6 0xffff0a000001#128) ∧
      hostAddr "[::ffff:a00:1]" = some (.v6 0xffff0a000001#128) ∧
      checkLiteralBlacklist HttpClient.plainHttp
        (parseBlacklist ["::/0"]) "http://[::ffff:a00:1]/" =
        .ok () := by
  have hexec : ((staticConfig (.v6 0xffff0a000001#128) "::/0").resolver.exec start
      [.call ['a'], .select 0]).isSome = true := by decide
  obtain ⟨s, hs⟩ := isSome_iff_exists.1 hexec
  have hdone : (['a'], Phase.done (.ok [⟨.v4 8, 0⟩, ⟨.v6 0xffff0a000001#128, 0⟩])) ∈ s.tasks := by
    cases hs
    exact mem_singleton_self _
  exact ⟨s, _, Machine.reachable_of_exec hs, hdone, by decide, ⟨.v6 0, 0, by decide⟩, by decide,
    by decide, by decide +kernel, by decide +kernel⟩

/-! ## The preference -/

def preferred : DnsPolicy → Option (IpAddr → Bool)
  | .preferV4 => some IpAddr.isIpv4
  | .preferV6 => some IpAddr.isIpv6
  | _ => none

def OneFamily (addrs : List SocketAddr) : Prop :=
  ∀ a ∈ addrs, ∀ b ∈ addrs, a.ip.isIpv4 = b.ip.isIpv4

theorem isIpv6_eq_not (ip : IpAddr) : ip.isIpv6 = !ip.isIpv4 := by cases ip <;> rfl

theorem applyPolicy_of_preferred (h : preferred policy = some family)
    (answer : List SocketAddr) :
    applyPolicy answer policy = sortByKey (fun a => !family a.ip) answer := by
  cases policy with
  | preferV4 =>
    cases h
    simp only [applyPolicy, isIpv6_eq_not]
  | preferV6 =>
    cases h
    simp only [applyPolicy, isIpv6_eq_not, Bool.not_not]
  | any | onlyV4 | onlyV6 => cases h

theorem family_eq_of_preferred (h : preferred policy = some family)
    {ip ip' : IpAddr} (hip : ip.isIpv4 = ip'.isIpv4) : family ip = family ip' := by
  cases policy with
  | preferV4 =>
    cases h
    exact hip
  | preferV6 =>
    cases h
    rw [isIpv6_eq_not, isIpv6_eq_not, hip]
  | any | onlyV4 | onlyV6 => cases h

theorem head?_of_pairwise {α : Type} {flag : α → Bool} {l : List α}
    (h : l.Pairwise fun a b => flag a ≤ flag b) {a : α} (ha : a ∈ l) (hflag : flag a = false) :
    ∃ b, l.head? = some b ∧ flag b = false := by
  cases l with
  | nil => cases ha
  | cons b l =>
    refine ⟨b, rfl, ?_⟩
    rcases mem_cons.1 ha with rfl | ha
    · exact hflag
    · have hle := (pairwise_cons.1 h).1 a ha
      rw [hflag] at hle
      exact Bool.eq_false_of_le_false hle

/-- What is handed out for a host is a rotation of an answer of DNS, sorted by the preference,
    without blocked addresses. If nothing rotates, or the answer is of one family, the first address
    is of the preferred family if one is. -/
theorem preference_honoured {cfg : DnsConfig} {s : DnsState} (hs : cfg.resolver.Reachable start s)
    {host : Text} {addrs : List SocketAddr} (hdone : (host, Phase.done (.ok addrs)) ∈ s.tasks)
    (hlookup : hostsLookup cfg.hosts host = none) {family : IpAddr → Bool}
    (hfamily : preferred cfg.policy = some family) :
    ∃ answer, (host, answer) ∈ s.answers ∧ addrs ~r cfg.unblocked (applyPolicy answer cfg.policy) ∧
      ((cfg.select = .first ∨ OneFamily (cfg.unblocked answer)) →
        (∃ a ∈ cfg.unblocked answer, family a.ip = true) → ∃ a, addrs.head? = some a ∧
          family a.ip = true) := by
  obtain ⟨source, hsource, hrot, hfirst⟩ := (sound_of_reachable hs).tasks _ hdone
  rcases hsource with ⟨static, hstatic, -⟩ | ⟨-, answer, hmem, rfl⟩
  · cases hlookup.symm.trans hstatic
  refine ⟨answer, hmem, hrot, fun hcond ⟨a, ha, hfam⟩ => ?_⟩
  rw [applyPolicy_of_preferred hfamily] at hrot hfirst
  have hperm :
      (cfg.unblocked (sortByKey (fun a => !family a.ip) answer)).Perm (cfg.unblocked answer) :=
    (perm_sortByKey _ _).filter _
  rcases hcond with hselect | hone
  · -- Without a rotation, the list is sorted.
    rw [hfirst hselect]
    obtain ⟨b, hb, hflag⟩ :=
      head?_of_pairwise ((pairwise_sortByKey _ _).filter _) (hperm.mem_iff.2 ha)
      (by rw [hfam]; rfl)
    rw [not_eq_false'] at hflag
    exact ⟨b, hb, hflag⟩
  · -- Within one family, any address will do.
    have hne : addrs ≠ [] := ne_nil_of_mem (hrot.mem_iff.2 (hperm.mem_iff.2 ha))
    obtain ⟨b, hb⟩ := isSome_iff_exists.1 (isSome_head?.2 hne)
    have hmemb := hperm.mem_iff.1 (hrot.mem_iff.1 (mem_of_mem_head? hb))
    exact ⟨b, hb, (family_eq_of_preferred hfamily (hone b hmemb a ha)).trans hfam⟩

def preferringConfig (select : DnsSelect) : DnsConfig where
  cache := .ttl 10
  select
  policy := .preferV4
  hosts := ∅
  blacklist := []

def mixedLookup : List DnsAction :=
  [.call ['a'], .readCache 0 0, .answer 0 (.ok [⟨.v6 1, 0⟩, ⟨.v4 1, 0⟩]), .select 0,
    .put 0 (DnsCacheMode.readAt 0) DnsCacheMode.inOrder]

theorem preference_honoured_first :
    ∃ s addrs, (preferringConfig .first).resolver.exec start mixedLookup = some s ∧
    (['a'], Phase.done (.ok addrs)) ∈ s.tasks ∧ ∃ a, addrs.head? = some a ∧ a.ip.isIpv4 = true := by
  have hexec : ((preferringConfig .first).resolver.exec start mixedLookup).isSome = true := by
    decide
  obtain ⟨s, hs⟩ := isSome_iff_exists.1 hexec
  have hs' : (['a'], Phase.done (.ok [⟨.v4 1, 0⟩, ⟨.v6 1, 0⟩])) ∈ s.tasks ∧
      s.answers = [(['a'], [⟨.v6 1, 0⟩, ⟨.v4 1, 0⟩])] := by
    cases hs
    exact ⟨mem_singleton_self _, rfl⟩
  obtain ⟨answer, hanswer, -, hhead⟩ :=
    preference_honoured (Machine.reachable_of_exec hs) hs'.1 rfl rfl
  rw [hs'.2] at hanswer
  cases mem_singleton.1 hanswer
  exact ⟨s, _, hs, hs'.1, hhead (.inl rfl) ⟨⟨.v4 1, 0⟩, by decide, rfl⟩⟩

theorem preference_rotated :
    (∃ s, (preferringConfig .random).resolver.exec start mixedLookup = some s ∧
      (['a'], Phase.done (.ok [⟨.v6 1, 0⟩, ⟨.v4 1, 0⟩])) ∈ s.tasks) ∧
    ∃ s, (preferringConfig .roundRobin).resolver.exec start
        (mixedLookup ++ [.call ['a'], .readCache 1 5, .select 1]) = some s ∧
      (['a'], Phase.done (.ok [⟨.v6 1, 0⟩, ⟨.v4 1, 0⟩])) ∈ s.tasks := by
  constructor
  · have hexec : ((preferringConfig .random).resolver.exec start mixedLookup).isSome = true := by
      decide
    obtain ⟨s, hs⟩ := isSome_iff_exists.1 hexec
    refine ⟨s, hs, ?_⟩
    cases hs
    exact mem_singleton_self _
  · have hexec : ((preferringConfig .roundRobin).resolver.exec start
        (mixedLookup ++ [.call ['a'], .readCache 1 5, .select 1])).isSome = true := by decide
    obtain ⟨s, hs⟩ := isSome_iff_exists.1 hexec
    refine ⟨s, hs, ?_⟩
    cases hs
    exact mem_cons_of_mem _ (mem_singleton_self _)

end DnsConfig

end Tropel
