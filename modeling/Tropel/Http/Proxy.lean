import Mathlib.Data.Bool.AllAny
import Tropel.Http.Client
import Tropel.Lib.Ip

/-!
# Skipping the proxy

A list of entries says which hosts are reached without the proxy: all, a host, subdomains, an
address, or a network.

* `skipsProxy_iff`: when the entries are obeyed.
-/

namespace Tropel

open Lib List

inductive BypassRule
  | all
  | host (name : Text)
  | subdomains (suffix : Text)
  | ip (addr : IpAddr)
  | cidr (net : IpAddr) (bits : ℕ) (le : bits ≤ net.width)

variable (debug : Text → String)

def parseBypass (entry : Text) : Except String BypassRule :=
  let raw := trim entry
  if raw = [] then .error "an empty bypass entry matches nothing — remove it"
  else if raw = ['*'] then .ok .all
  else match stripStart ['*', '.'] raw with
    | some suffix =>
      if suffix = [] ∨ '*' ∈ suffix then
        .error s!"bypass entry {debug raw}: \"*.\" must be followed by a plain suffix"
      else .ok (.subdomains (toAsciiLowercase suffix))
    | none =>
      if '*' ∈ raw then
        .error (s!"bypass entry {debug raw}: a wildcard is only allowed as a leading \"*.\" " ++
          "(subdomains) or a bare \"*\" (everything)")
      else match splitOnce '/' raw with
        | some (net, len) =>
          match parseIp net with
          | none => .error s!"bypass entry {debug raw}: {debug net} is not an IP address"
          | some addr =>
            match parseU8 len with
            | none => .error s!"bypass entry {debug raw}: {debug len} is not a prefix length"
            | some bits =>
              if h : bits ≤ addr.width then .ok (.cidr addr bits h)
              else .error s!"bypass entry {debug raw}: /{bits} exceeds /{addr.width}"
        | none =>
          match parseIp raw with
          | some addr => .ok (.ip addr)
          | none => .ok (.host (toAsciiLowercase raw))

def prefixEq (a b : List (BitVec 8)) (bits : ℕ) : Bool :=
  let full := bits / 8
  let rest := bits % 8
  if a.take full ≠ b.take full then false
  else if rest = 0 then true
  else
    let mask := BitVec.allOnes 8 <<< (8 - rest)
    a.getD full 0 &&& mask = b.getD full 0 &&& mask

def inCidr (addr net : IpAddr) (bits : ℕ) : Bool :=
  match addr, net with
  | .v4 a, .v4 n => prefixEq (@octets 4 a) (@octets 4 n) bits
  | .v6 a, .v6 n => prefixEq (@octets 16 a) (@octets 16 n) bits
  | _, _ => false

namespace BypassRule

def matchesHost (rule : BypassRule) (host : Text) : Bool :=
  let host := toAsciiLowercase (trim host)
  match rule with
  | .all => true
  | .host name => host = name
  | .subdomains suffix =>
    -- The byte before the suffix is that of the last character before it.
    decide (byteLen host > byteLen suffix + 1) && suffix.isSuffixOf host &&
      (host.take (host.length - suffix.length)).getLast? = some '.'
  | .ip addr => (parseIp host).any (· = addr)
  | .cidr net bits _ => (parseIp host).any (inCidr · net bits)

end BypassRule

def parseBypassList (entries : List Text) : Except String (List BypassRule) :=
  let results := entries.map (parseBypass debug)
  let errors := results.filterMap fun
    | .error e => some e
    | .ok _ => none
  if errors = [] then .ok (results.filterMap Except.toOption) else .error ("; ".intercalate errors)

def bypasses (rules : List BypassRule) (host : Text) : Bool := rules.any (·.matchesHost host)

inductive ProxyMode
  | off | fixed | system | pac
  deriving DecidableEq

def systemNoProxy (values : List Text) : List Text :=
  ((values.map fun value => ((value.splitOn ',').map trim).filter (· ≠ [])).find? (· ≠ [])).getD []

def bypassEntries (mode : ProxyMode) (bypass noProxy : List Text) : List Text :=
  bypass ++ if mode = .system then systemNoProxy noProxy else []

def buildRules (mode : ProxyMode)
    (bypass noProxy : List Text) : Except TropelError (List BypassRule) :=
  (parseBypassList debug (bypassEntries mode bypass noProxy)).mapError fun e =>
    .config s!"proxy bypass list: {e}"

def skipsProxy (rules : List BypassRule) (host : Option Text) : Bool :=
  if rules = [] then false else bypasses rules (host.getD [])

/-! ## What the entries ask for -/

structure UrlHost where
  text : Text
  wf : (∀ c ∈ text, isWhitespace c = false ∧ c ∉ ['/', ':', '[', ']']) ∨
    ∃ t b, text = '[' :: (t ++ [']']) ∧ parseIp t = some (.v6 b)

def TextMatch (raw host : Text) : Prop :=
  raw = ['*'] ∨ toAsciiLowercase raw = toAsciiLowercase host ∨
    ∃ suffix, raw = '*' :: '.' :: suffix ∧ ∃ sub, sub ≠ [] ∧
      toAsciiLowercase host = sub ++ '.' :: toAsciiLowercase suffix

def InNetwork (bits : ℕ) : IpAddr → IpAddr → Prop
  | .v4 net, .v4 a => AgreeOn bits net a
  | .v6 net, .v6 a => AgreeOn bits net a
  | _, _ => False

def AddrMatch (raw : Text) (ip : IpAddr) : Prop :=
  parseIp raw = some ip ∨ ∃ net len addr bits, splitOnce '/' raw = some (net, len) ∧
    parseIp net = some addr ∧
    parseU8 len = some bits ∧ InNetwork bits addr ip

def Bypassed (entries : List Text) (host : Text) : Prop :=
  ∃ entry ∈ entries, TextMatch (trim entry) host ∨ ∃ ip, hostAddr host = some ip ∧
    AddrMatch (trim entry) ip

namespace UrlHost

variable (h : UrlHost)

theorem trim_text : trim h.text = h.text := by
  rcases h.wf with hplain | ⟨t, b, htext, -⟩
  · exact trim_eq_self fun c hc => (hplain c hc).1
  · rw [htext]
    refine trim_eq_of_ends (fun c hc => ?_) fun c hc => ?_
    · obtain rfl : '[' = c := Option.some.inj hc
      rfl
    · rw [← cons_append, getLast?_concat] at hc
      obtain rfl : ']' = c := Option.some.inj hc
      rfl

theorem slash_not_mem_text : '/' ∉ h.text := by
  intro hmem
  rcases h.wf with hplain | ⟨t, b, htext, hip⟩
  · exact (hplain _ hmem).2 (by decide)
  · rw [htext, mem_cons, mem_append, mem_singleton] at hmem
    rcases hmem with hmem | hmem | hmem
    · cases hmem
    · exact absurd (isAddrChar_of_parseIp hip _ hmem) (by decide)
    · cases hmem

theorem bracket_mem_text (hcolon : ':' ∈ h.text) : '[' ∈ h.text := by
  rcases h.wf with hplain | ⟨t, b, htext, -⟩
  · exact absurd (by decide) (hplain _ hcolon).2
  · rw [htext]
    exact List.mem_cons_self

theorem parseIp_text {ip : IpAddr} : parseIp (toAsciiLowercase h.text) = some ip ↔
    ∃ a, ip = .v4 a ∧ hostAddr h.text = some (.v4 a) := by
  constructor
  · intro hip
    have hbracket : '[' ∉ h.text := fun hmem =>
      absurd (isAddrChar_of_parseIp hip _ ((mem_toAsciiLowercase (by decide)).2 hmem)) (by decide)
    cases ip with
    | v4 a =>
      refine ⟨a, rfl, ?_⟩
      unfold hostAddr
      split
      next htext => exact absurd (htext ▸ mem_cons_self) hbracket
      · rw [parseIp_toAsciiLowercase_v4.1 hip]
        rfl
    | v6 b =>
      have hcolon := (mem_toAsciiLowercase (by decide)).1 (of_parseIp_v6 hip).1
      exact absurd (h.bracket_mem_text hcolon) hbracket
  · rintro ⟨a, rfl, ha⟩
    unfold hostAddr at ha
    split at ha
    · cases (Option.filter_eq_some_iff.1 ha).2
    · exact parseIp_toAsciiLowercase_v4.2 (Option.filter_eq_some_iff.1 ha).1

end UrlHost

/-! ## What the rules do -/

variable {host raw net len : Text} {debug : Text → String} {addr ip : IpAddr}
  {rules : List BypassRule} {bits : ℕ}
  {entries : List Text} {rule : BypassRule}

theorem prefixEq_iff {n : ℕ} (a b : BitVec (8 * n)) (hbits : bits ≤ 8 * n) :
    prefixEq (octets a) (octets b) bits = true ↔ AgreeOn bits a b := by
  have hfull := take_octets_eq_iff (m := bits / 8) a b (by omega)
  rw [prefixEq]
  split
  next hne => exact iff_of_false nofun fun h => hne (hfull.2 fun i hi => h i (by omega))
  next heq =>
    rw [ne_eq, not_not, hfull] at heq
    split
    next hrest => exact iff_of_true rfl fun i hi => heq i (by omega)
    next hrest =>
      have hlt : bits / 8 < n := by omega
      have hagree := agreeOn_iff_octets a b hlt (Nat.mod_lt bits (by decide)).le
      rw [Nat.div_add_mod] at hagree
      rw [decide_eq_true_eq, getD_octets a hlt, getD_octets b hlt, and_mask_eq_iff (by omega),
        hagree, and_iff_right heq]

theorem inCidr_iff {addr net : IpAddr} (hbits : bits ≤ net.width) :
    inCidr addr net bits = true ↔ InNetwork bits net addr := by
  have hsymm {w : ℕ} {a b : BitVec w} : AgreeOn bits a b ↔ AgreeOn bits b a :=
    ⟨fun h i hi => (h i hi).symm, fun h i hi => (h i hi).symm⟩
  cases addr <;> cases net
  · exact (@prefixEq_iff bits 4 _ _ hbits).trans hsymm
  · exact iff_of_false nofun id
  · exact iff_of_false nofun id
  · exact (@prefixEq_iff bits 16 _ _ hbits).trans hsymm

theorem matchesHost_subdomains_iff {suffix host : Text} :
    (byteLen host > byteLen suffix + 1 ∧ suffix.isSuffixOf host = true ∧
      (host.take (host.length - suffix.length)).getLast? = some '.') ↔
    ∃ sub, sub ≠ [] ∧ host = sub ++ '.' :: suffix := by
  constructor
  · rintro ⟨hlen, hsuffix, hlast⟩
    obtain ⟨before, rfl⟩ := isSuffixOf_iff_suffix.1 hsuffix
    rw [length_append, Nat.add_sub_cancel, take_left] at hlast
    obtain ⟨sub, rfl⟩ : ∃ sub, before = sub ++ ['.'] := ⟨_, (dropLast_append_getLast? _ hlast).symm⟩
    refine ⟨sub, ?_, append_assoc _ _ _⟩
    rintro rfl
    rw [nil_append, byteLen_append, byteLen] at hlen
    change 1 + _ > _ at hlen
    omega
  · rintro ⟨sub, hne, rfl⟩
    have hpos := byteLen_pos hne
    have hone : byteLen ['.'] = 1 := rfl
    rw [append_cons]
    refine ⟨?_, isSuffixOf_iff_suffix.2 (suffix_append _ _), ?_⟩
    · rw [byteLen_append, byteLen_append]
      omega
    · rw [length_append, Nat.add_sub_cancel, take_left, getLast?_concat]

inductive Parsed (raw : Text) : BypassRule → Prop
  | all (hraw : raw = ['*']) : Parsed raw .all
  | subdomains (suffix : Text) (hraw : raw = '*' :: '.' :: suffix) :
      Parsed raw (.subdomains (toAsciiLowercase suffix))
  | cidr {net len : Text} {addr : IpAddr} {bits : ℕ} (hstar : '*' ∉ raw)
      (hsplit : splitOnce '/' raw = some (net, len))
      (hnet : parseIp net = some addr) (hlen : parseU8 len = some bits) (hle : bits ≤ addr.width) :
      Parsed raw (.cidr addr bits hle)
  | ip {addr : IpAddr} (hstar : '*' ∉ raw) (hsplit : splitOnce '/' raw = none)
      (hip : parseIp raw = some addr) :
      Parsed raw (.ip addr)
  | host (hstar : '*' ∉ raw) (hsplit : splitOnce '/' raw = none) (hip : parseIp raw = none) :
      Parsed raw (.host (toAsciiLowercase raw))

theorem parsed_of_parseBypass {entry : Text} (h : parseBypass debug entry = .ok rule) :
    Parsed (trim entry) rule := by
  rw [parseBypass] at h
  split at h
  · cases h
  split at h
  next hraw =>
    cases h
    exact .all hraw
  split at h
  next suffix hsuffix =>
    split at h
    · cases h
    · cases h
      exact .subdomains suffix (stripStart_eq_some hsuffix)
  · split at h
    · cases h
    next hstar =>
      split at h
      next net len hsplit =>
        split at h
        · cases h
        next addr hnet =>
          split at h
          · cases h
          next bits hlen =>
            split at h
            next hle =>
              cases h
              exact .cidr hstar hsplit hnet hlen hle
            · cases h
      next hsplit =>
        split at h
        next addr hip =>
          cases h
          exact .ip hstar hsplit hip
        next hip =>
          cases h
          exact .host hstar hsplit hip

theorem not_addrMatch_of_star (hraw : raw.head? = some '*') (ip : IpAddr) : ¬AddrMatch raw ip := by
  have hnot {t : Text} {a : IpAddr} (ht : t.head? = some '*') : parseIp t ≠ some a := fun hip =>
    absurd (isAddrChar_of_parseIp hip _ (mem_of_mem_head? ht)) (by decide)
  rintro (hip | ⟨net, len, addr, bits, hsplit, hnet, -, -⟩)
  · exact hnot hraw hip
  · obtain ⟨rfl, -⟩ := splitOnce_eq_some hsplit
    refine hnot ?_ hnet
    cases net with
    | nil => cases hraw
    | cons c net => exact hraw

theorem textMatch_iff_of_star_not_mem (hstar : '*' ∉ raw) :
    TextMatch raw host ↔ toAsciiLowercase raw = toAsciiLowercase host := by
  have hne {suffix : Text} : raw ≠ '*' :: suffix := by
    rintro rfl
    exact hstar mem_cons_self
  refine ⟨?_, fun heq => .inr (.inl heq)⟩
  rintro (hraw | heq | ⟨suffix, hraw, -⟩)
  · exact absurd hraw hne
  · exact heq
  · exact absurd hraw hne

theorem not_addrMatch_of_host (hsplit : splitOnce '/' raw = none) (hip : parseIp raw = none)
    (ip : IpAddr) : ¬AddrMatch raw ip := by
  rintro (hip' | ⟨net, len, -, -, hsplit', -⟩)
  · cases hip.symm.trans hip'
  · cases hsplit.symm.trans hsplit'

theorem addrMatch_iff_of_parseIp (hsplit : splitOnce '/' raw = none)
    (hip : parseIp raw = some addr) : AddrMatch raw ip ↔ addr = ip := by
  constructor
  · rintro (hip' | ⟨net, len, -, -, hsplit', -⟩)
    · exact Option.some.inj (hip.symm.trans hip')
    · cases hsplit.symm.trans hsplit'
  · rintro rfl
    exact .inl hip

theorem slash_mem_of_splitOnce (hsplit : splitOnce '/' raw = some (net, len)) : '/' ∈ raw := by
  rw [(splitOnce_eq_some hsplit).1]
  exact mem_append_right _ mem_cons_self

theorem addrMatch_iff_of_splitOnce
    (hsplit : splitOnce '/' raw = some (net, len)) (hnet : parseIp net = some addr)
    (hlen : parseU8 len = some bits) :
    AddrMatch raw ip ↔ InNetwork bits addr ip := by
  constructor
  · rintro (hip | ⟨net', len', addr', bits', hsplit', hnet', hlen', hin⟩)
    · -- An address has no slash.
      exact absurd (isAddrChar_of_parseIp hip _ (slash_mem_of_splitOnce hsplit)) (by decide)
    · cases hsplit.symm.trans hsplit'
      cases hnet.symm.trans hnet'
      cases hlen.symm.trans hlen'
      exact hin
  · exact fun hin => .inr ⟨net, len, addr, bits, hsplit, hnet, hlen, hin⟩

theorem UrlHost.parseIp_of_eq (h : UrlHost) (hip : parseIp raw = some addr)
    (heq : toAsciiLowercase raw = toAsciiLowercase h.text) :
    parseIp (toAsciiLowercase h.text) = some addr := by
  cases addr with
  | v4 a => rwa [← parseIp_toAsciiLowercase_v4, heq] at hip
  | v6 b =>
    -- The text of a host with a colon is in brackets, which no address has.
    have hmem (c : Char) (hc : c.isAlpha = false) : c ∈ raw ↔ c ∈ h.text := by
      rw [← mem_toAsciiLowercase hc, heq, mem_toAsciiLowercase hc]
    have hbracket := h.bracket_mem_text ((hmem ':' (by decide)).1 (of_parseIp_v6 hip).1)
    exact absurd ((of_parseIp_v6 hip).2 _ ((hmem '[' (by decide)).2 hbracket)) (by decide)

theorem matchesHost_iff (hparsed : Parsed raw rule) (h : UrlHost) : rule.matchesHost h.text = true ↔
      TextMatch raw h.text ∨ ∃ a, hostAddr h.text = some (.v4 a) ∧ AddrMatch raw (.v4 a) := by
  cases hparsed with
  | all hraw => exact iff_of_true rfl (.inl (.inl hraw))
  | subdomains suffix hraw =>
    dsimp only [BypassRule.matchesHost]
    rw [h.trim_text, Bool.and_eq_true, Bool.and_eq_true, decide_eq_true_eq, decide_eq_true_eq,
      and_assoc, matchesHost_subdomains_iff]
    constructor
    · rintro ⟨sub, hne, heq⟩
      exact .inl (.inr (.inr ⟨suffix, hraw, sub, hne, heq⟩))
    · rintro ((hstar | heq | ⟨suffix', hraw', hsub⟩) | ⟨a, -, haddr⟩)
      · cases hraw.symm.trans hstar
      · -- A host that equals the entry is below its suffix, by the name of the star.
        rw [hraw] at heq
        exact ⟨['*'], cons_ne_nil _ _, heq.symm⟩
      · cases hraw.symm.trans hraw'
        exact hsub
      · exact absurd haddr (not_addrMatch_of_star (by rw [hraw]; rfl) _)
  | @cidr net len addr bits hstar hsplit hnet hlen hle =>
    dsimp only [BypassRule.matchesHost]
    rw [h.trim_text, Option.any_eq_true, textMatch_iff_of_star_not_mem hstar]
    constructor
    · rintro ⟨ip, hip, hin⟩
      obtain ⟨a, rfl, ha⟩ := h.parseIp_text.1 hip
      exact .inr ⟨a, ha, (addrMatch_iff_of_splitOnce hsplit hnet hlen).2 ((inCidr_iff hle).1 hin)⟩
    · rintro (heq | ⟨a, ha, haddr⟩)
      · -- No host has a slash.
        have hmem := (mem_toAsciiLowercase (by decide)).2 (slash_mem_of_splitOnce hsplit)
        rw [heq, mem_toAsciiLowercase (by decide)] at hmem
        exact absurd hmem h.slash_not_mem_text
      · have hin := (addrMatch_iff_of_splitOnce hsplit hnet hlen).1 haddr
        exact ⟨.v4 a, h.parseIp_text.2 ⟨a, rfl, ha⟩, (inCidr_iff hle).2 hin⟩
  | @ip addr hstar hsplit hip =>
    dsimp only [BypassRule.matchesHost]
    rw [h.trim_text, Option.any_eq_true, textMatch_iff_of_star_not_mem hstar]
    constructor
    · rintro ⟨ip, hhost, heq⟩
      obtain ⟨a, rfl, ha⟩ := h.parseIp_text.1 hhost
      cases of_decide_eq_true heq
      exact .inr ⟨a, ha, .inl hip⟩
    · rintro (heq | ⟨a, ha, haddr⟩)
      · exact ⟨_, h.parseIp_of_eq hip heq, decide_eq_true rfl⟩
      · cases (addrMatch_iff_of_parseIp hsplit hip).1 haddr
        exact ⟨.v4 a, h.parseIp_text.2 ⟨a, rfl, ha⟩, decide_eq_true rfl⟩
  | host hstar hsplit hip =>
    dsimp only [BypassRule.matchesHost]
    rw [h.trim_text, decide_eq_true_eq, textMatch_iff_of_star_not_mem hstar]
    constructor
    · exact fun heq => .inl heq.symm
    · rintro (heq | ⟨a, -, haddr⟩)
      · exact heq.symm
      · exact absurd haddr (not_addrMatch_of_host hsplit hip _)

theorem mem_of_parseBypassList (h : parseBypassList debug entries = .ok rules) :
    (∀ rule ∈ rules, ∃ entry ∈ entries, Parsed (trim entry) rule) ∧
      ∀ entry ∈ entries, ∃ rule ∈ rules, Parsed (trim entry) rule := by
  rw [parseBypassList] at h
  split at h
  next herrors =>
    cases h
    constructor
    · intro rule hrule
      obtain ⟨r, hr, hok⟩ := mem_filterMap.1 hrule
      obtain ⟨entry, hentry, rfl⟩ := mem_map.1 hr
      cases hparse : parseBypass debug entry with
      | error e =>
        rw [hparse] at hok
        cases hok
      | ok rule' =>
        rw [hparse] at hok
        cases hok
        exact ⟨entry, hentry, parsed_of_parseBypass hparse⟩
    · intro entry hentry
      have hr := mem_map_of_mem (f := parseBypass debug) hentry
      cases hparse : parseBypass debug entry with
      | error e =>
        rw [hparse] at hr
        cases filterMap_eq_nil_iff.1 herrors _ hr
      | ok rule =>
        rw [hparse] at hr
        exact ⟨rule, mem_filterMap.2 ⟨_, hr, rfl⟩, parsed_of_parseBypass hparse⟩
  · cases h

theorem skipsProxy_eq_true_iff (hrules : parseBypassList debug entries = .ok rules) (h : UrlHost) :
    skipsProxy rules (some h.text) = true ↔ ∃ entry ∈ entries, TextMatch (trim entry) h.text ∨
      ∃ a, hostAddr h.text = some (.v4 a) ∧ AddrMatch (trim entry) (.v4 a) := by
  have hskips : skipsProxy rules (some h.text) = rules.any (·.matchesHost h.text) := by
    cases rules <;> rfl
  rw [hskips, any_eq_true]
  obtain ⟨hentries, hrules⟩ := mem_of_parseBypassList hrules
  constructor
  · rintro ⟨rule, hrule, hmatch⟩
    obtain ⟨entry, hentry, hparsed⟩ := hentries rule hrule
    exact ⟨entry, hentry, (matchesHost_iff hparsed h).1 hmatch⟩
  · rintro ⟨entry, hentry, hmatch⟩
    obtain ⟨rule, hrule, hparsed⟩ := hrules entry hentry
    exact ⟨rule, hrule, (matchesHost_iff hparsed h).2 hmatch⟩

/-- A request skips the proxy just when an entry asks for it, unless the host is an IPv6 address, an
    entry asks for it by that address, and none by its text. -/
theorem skipsProxy_iff {debug : Text → String} {mode : ProxyMode} {bypass noProxy : List Text}
    {rules : List BypassRule} (hrules : buildRules debug mode bypass noProxy = .ok rules)
    (h : UrlHost) :
    (skipsProxy rules (some h.text) = true ↔ Bypassed (bypassEntries mode bypass noProxy) h.text) ↔
      ∀ b, hostAddr h.text = some (.v6 b) → ∀ entry ∈ bypassEntries mode bypass noProxy,
        AddrMatch (trim entry) (.v6 b) →
          ∃ entry' ∈ bypassEntries mode bypass noProxy, TextMatch (trim entry') h.text := by
  have hskips := skipsProxy_eq_true_iff (mapError_eq_ok.1 hrules) h
  constructor
  · intro hiff b hb entry hentry haddr
    obtain ⟨entry', hentry', htext | ⟨a, ha, -⟩⟩ :=
      hskips.1 (hiff.2 ⟨entry, hentry, .inr ⟨.v6 b, hb, haddr⟩⟩)
    · exact ⟨entry', hentry', htext⟩
    · cases hb.symm.trans ha
  · intro hcond
    rw [hskips]
    constructor
    · rintro ⟨entry, hentry, htext | ⟨a, ha, haddr⟩⟩
      · exact ⟨entry, hentry, .inl htext⟩
      · exact ⟨entry, hentry, .inr ⟨.v4 a, ha, haddr⟩⟩
    · rintro ⟨entry, hentry, htext | ⟨ip, hip, haddr⟩⟩
      · exact ⟨entry, hentry, .inl htext⟩
      · cases ip with
        | v4 a => exact ⟨entry, hentry, .inr ⟨a, hip, haddr⟩⟩
        | v6 b =>
          obtain ⟨entry', hentry', htext⟩ := hcond b hip entry hentry haddr
          exact ⟨entry', hentry', .inl htext⟩

theorem skipsProxy_iff_network : ∃ (rules : List BypassRule) (a b : UrlHost),
    buildRules String.ofList .fixed ["*.example.com", "10.0.0.0/8"] [] = .ok rules ∧
    a.text = "www.Example.com" ∧ b.text = "10.1.2.3" ∧
    skipsProxy rules (some a.text) = true ∧ skipsProxy rules (some b.text) = true ∧
    Bypassed ["*.example.com", "10.0.0.0/8"] a.text ∧
    Bypassed ["*.example.com", "10.0.0.0/8"] b.text := by
  obtain ⟨rules, hrules⟩ : ∃ rules,
      buildRules String.ofList .fixed ["*.example.com", "10.0.0.0/8"] [] = .ok rules := ⟨_, rfl⟩
  let a : UrlHost := ⟨"www.Example.com", .inl (all_iff_forall_prop.1 (by decide))⟩
  let b : UrlHost := ⟨"10.1.2.3", .inl (all_iff_forall_prop.1 (by decide))⟩
  have hskips : skipsProxy rules (some a.text) = true ∧ skipsProxy rules (some b.text) = true := by
    cases hrules
    decide
  have haddr : hostAddr a.text = none ∧ hostAddr b.text = some (.v4 0x0a010203#32) := by decide
  have ha := (skipsProxy_iff hrules a).2 fun b hb => by
    rw [haddr.1] at hb
    cases hb
  have hb := (skipsProxy_iff hrules b).2 fun b hb => by
    rw [haddr.2] at hb
    cases hb
  exact ⟨rules, a, b, hrules, rfl, rfl, hskips.1, hskips.2, ha.1 hskips.1, hb.1 hskips.2⟩

theorem skipsProxy_brackets : ∃ (rules : List BypassRule) (h : UrlHost),
    buildRules String.ofList .fixed ["::1"] [] = .ok rules ∧ h.text = "[::1]" ∧
    Bypassed ["::1"] h.text ∧ skipsProxy rules (some h.text) = false := by
  obtain ⟨rules, hrules⟩ : ∃ rules, buildRules String.ofList .fixed ["::1"] [] = .ok rules :=
    ⟨_, rfl⟩
  have hip : parseIp "::1" = some (.v6 1) := by decide
  have hhost : hostAddr "[::1]" = some (.v6 1) := by decide
  have hskips : skipsProxy rules (some "[::1]") = false := by
    cases hrules
    decide
  exact ⟨rules, ⟨"[::1]", .inr ⟨"::1", 1, rfl, hip⟩⟩, hrules, rfl,
    ⟨_, mem_singleton_self _, .inr ⟨.v6 1, hhost, .inl (by decide)⟩⟩, hskips⟩

end Tropel
