import Tropel.Http.Client
import Tropel.Lib.Ip

/-!
# Blocked addresses

The addresses that a run must not connect to are given by networks (`IpCidr`).
-/

namespace Tropel

open Lib Nat BitVec

structure IpCidr where
  base : IpAddr
  prefixLen : ℕ
  le : prefixLen ≤ base.width
  deriving DecidableEq

def checkedShl {w : ℕ} (a : BitVec w) (n : ℕ) : Option (BitVec w) :=
  if n < w then some (a <<< n) else none

def prefixMask (w n : ℕ) : BitVec w :=
  if n ≥ w then BitVec.allOnes w else (checkedShl (BitVec.allOnes w) (w - n)).getD 0

theorem and_prefixMask_eq_iff {w n : ℕ} (h : n ≤ w) (a b : BitVec w) :
    a &&& prefixMask w n = b &&& prefixMask w n ↔ AgreeOn n a b := by
  have hmask : prefixMask w n = allOnes w <<< (w - n) := by
    rw [prefixMask, checkedShl]
    split
    · rw [Nat.sub_eq_zero_of_le (by assumption), BitVec.shiftLeft_zero]
    · split
      · rfl
      · rw [shiftLeft_eq_zero (by omega)]
        rfl
  rw [hmask, and_mask_eq_iff h]

namespace IpCidr

def parse (s : Text) : Option IpCidr :=
  let s := trim s
  let parts := match splitOnce '/' s with
    | some (ip, p) => (parseU8 (trim p)).map fun n => (ip, n)
    | none => some (s, if s.contains ':' then 128 else 32)
  parts.bind fun (ipPart, n) => (parseIp (trim ipPart)).bind fun ip =>
    if h : n ≤ ip.width then some ⟨ip, n, h⟩ else none

variable (c : IpCidr)

def contains (ip : IpAddr) : Bool :=
  match c.base.toCanonical, ip.toCanonical with
  | .v4 base, .v4 ip =>
    -- The prefix of a mapped network counts 96 bits more.
    let n := if c.base.isIpv6 then min (c.prefixLen - 96) 32 else c.prefixLen
    base &&& prefixMask 32 n = ip &&& prefixMask 32 n
  | .v6 base, .v6 ip => base &&& prefixMask 128 c.prefixLen = ip &&& prefixMask 128 c.prefixLen
  | _, _ => false

def bitCount : ℕ := if c.base.isIpv4 then 96 + c.prefixLen else c.prefixLen

theorem contains_iff (ip : IpAddr) : c.contains ip = true ↔
    c.base.toCanonical.isIpv4 = ip.toCanonical.isIpv4 ∧ AgreeOn c.bitCount c.base.bits ip.bits := by
  obtain ⟨base, n, hle⟩ := c
  dsimp only [contains, bitCount]
  split
  next a x ha hx =>
    rw [ha, hx, IpAddr.bits_of_toCanonical_v4 ha, IpAddr.bits_of_toCanonical_v4 hx,
      decide_eq_true_eq, and_iff_right (by rfl)]
    cases base with
    | v4 a' =>
      have hle : n ≤ 32 := hle
      rw [if_neg nofun, if_pos (by rfl), and_prefixMask_eq_iff hle, agreeOn_append]
    | v6 b =>
      have hle : n ≤ 128 := hle
      rw [if_pos (by rfl), if_neg nofun, min_eq_left (by omega), and_prefixMask_eq_iff (by omega)]
      by_cases hn : n ≤ 96
      · -- All mapped addresses agree on so few bits.
        rw [Nat.sub_eq_zero_of_le hn]
        exact iff_of_true nofun (agreeOn_append_left _ _ _ hn)
      · rw [← agreeOn_append mappedHead, Nat.add_sub_cancel' (by omega)]
  next b y hb hy =>
    obtain ⟨rfl, -⟩ := IpAddr.of_toCanonical_v6 hb
    obtain ⟨rfl, -⟩ := IpAddr.of_toCanonical_v6 hy
    have hle : n ≤ 128 := hle
    rw [hb, hy, if_neg nofun, decide_eq_true_eq, and_prefixMask_eq_iff hle, and_iff_right (by rfl)]
    rfl
  next h4 h6 =>
    refine iff_of_false nofun fun h => ?_
    cases hb : base.toCanonical <;> cases hy : ip.toCanonical
    · exact h4 _ _ hb hy
    · rw [hb, hy] at h
      cases h.1
    · rw [hb, hy] at h
      cases h.1
    · exact h6 _ _ hb hy

def Covers (ip : IpAddr) : Prop :=
  (c.base.isIpv4 = true ∨ ip.isIpv6 = true) ∧ AgreeOn c.bitCount c.base.bits ip.bits

instance (c : IpCidr) (ip : IpAddr) : Decidable (c.Covers ip) :=
  inferInstanceAs
    (Decidable ((c.base.isIpv4 = true ∨ ip.isIpv6 = true) ∧ AgreeOn c.bitCount c.base.bits ip.bits))

def Straddles : Prop := c.bitCount < 96 ∧ AgreeOn c.bitCount c.base.bits (mappedHead ++ 0#32)

instance (c : IpCidr) : Decidable c.Straddles :=
  inferInstanceAs
    (Decidable (c.bitCount < 96 ∧ AgreeOn c.bitCount c.base.bits (mappedHead ++ 0#32)))

theorem isIpv4_toCanonical_iff {ip : IpAddr} :
    ip.toCanonical.isIpv4 = true ↔ ∃ a : BitVec 32, ip.bits = mappedHead ++ a := by
  cases h : ip.toCanonical with
  | v4 a => exact iff_of_true rfl ⟨a, IpAddr.bits_of_toCanonical_v4 h⟩
  | v6 b =>
    obtain ⟨rfl, hb⟩ := IpAddr.of_toCanonical_v6 h
    exact iff_of_false nofun fun ⟨a, ha⟩ => hb a ha

theorem isIpv4_toCanonical_of_agreeOn {ip ip' : IpAddr} {n : ℕ} (hn : 96 ≤ n)
    (h : AgreeOn n ip.bits ip'.bits) (hip : ip.toCanonical.isIpv4 = true) :
    ip'.toCanonical.isIpv4 = true := by
  obtain ⟨a, ha⟩ := isIpv4_toCanonical_iff.1 hip
  have hsplit := @extractLsb'_append_extractLsb' 96 32 ip'.bits
  rw [ha, ← hsplit] at h
  exact isIpv4_toCanonical_iff.2 ⟨_, by rw [eq_of_agreeOn_append hn h, hsplit]⟩

theorem contains_of_covers {c : IpCidr} {ip : IpAddr} (hc : ¬c.Straddles) (h : c.Covers ip) :
    c.contains ip = true := by
  refine (c.contains_iff ip).2 ⟨?_, h.2⟩
  by_cases hn : 96 ≤ c.bitCount
  · exact Bool.eq_iff_iff.2 ⟨isIpv4_toCanonical_of_agreeOn hn h.2,
      isIpv4_toCanonical_of_agreeOn hn fun i hi => (h.2 i hi).symm⟩
  · -- With so few bits, a mapped address on either side makes the network straddle.
    have hmapped (a : BitVec 32) : AgreeOn c.bitCount (mappedHead ++ a) (mappedHead ++ 0#32) :=
      agreeOn_append_left _ _ _ (by omega)
    have hbase : ¬c.base.toCanonical.isIpv4 = true := by
      intro hbase
      obtain ⟨a, ha⟩ := isIpv4_toCanonical_iff.1 hbase
      exact hc ⟨by omega, ha ▸ hmapped a⟩
    have hip : ¬ip.toCanonical.isIpv4 = true := by
      intro hip
      obtain ⟨a, ha⟩ := isIpv4_toCanonical_iff.1 hip
      exact hc ⟨by omega, fun i hi => (h.2 i hi).trans (ha ▸ hmapped a i hi)⟩
    rw [Bool.not_eq_true] at hbase hip
    rw [hbase, hip]

theorem forall_contains_iff {c : IpCidr} :
    (∀ ip, c.Covers ip → c.contains ip = true) ↔ ¬c.Straddles := by
  refine ⟨fun h hc => ?_, fun hc ip => contains_of_covers hc⟩
  -- A network that straddles covers both of these, and contains those of one kind only.
  have hnear : AgreeOn 95 (mappedHead ++ 0#32) (0xfffe#96 ++ 0#32) := by decide
  have hlt := hc.1
  have hmapped := (c.contains_iff (.v6 (mappedHead ++ 0#32))).1 (h _ ⟨.inr rfl, hc.2⟩)
  have hother := (c.contains_iff (.v6 (0xfffe#96 ++ 0#32))).1
    (h _ ⟨.inr rfl, fun i hi => (hc.2 i hi).trans (hnear i (by omega))⟩)
  exact absurd (hmapped.1.symm.trans hother.1) (by decide)

end IpCidr

def parseBlacklist (blacklistIps : List Text) : List IpCidr := blacklistIps.filterMap IpCidr.parse

def checkLiteralBlacklist {U J : Type} (lib : Reqwest U J) (blacklist : List IpCidr)
    (url : String) :
    Except TropelError Unit :=
  if blacklist = [] then .ok ()
  else match lib.parse url with
    | .error e => .error (.http s!"Invalid request URL '{url}': {e}")
    | .ok parsed => match lib.hostStr parsed with
      | none => .ok ()
      | some host =>
        let host := (host.toList.dropWhile (· = '[')).rdropWhile (· = ']')
        match parseIp host with
        | none => .ok ()
        | some ip =>
          if blacklist.any (·.contains ip) then
            .error (.http
              s!"request to blacklisted IP literal '{String.ofList host}' (blacklistIPs)")
          else .ok ()

theorem checkLiteralBlacklist_of_contains {U J : Type} {lib : Reqwest U J} {blacklist : List IpCidr}
    {url : String} {u : U} {host : String} {ip : IpAddr} {c : IpCidr}
    (hparse : lib.parse url = .ok u) (hhost : lib.hostStr u = some host)
    (hip : hostAddr host.toList = some ip) (hc : c ∈ blacklist)
    (hcontains : c.contains ip = true) :
    ∃ e, checkLiteralBlacklist lib blacklist url = .error (.http e) := by
  have hany : blacklist.any (·.contains ip) = true := List.any_eq_true.2 ⟨c, hc, hcontains⟩
  rw [checkLiteralBlacklist, if_neg (List.ne_nil_of_mem hc), hparse]
  dsimp only
  rw [hhost]
  dsimp only
  rw [parseIp_of_hostAddr hip]
  dsimp only
  rw [if_pos hany]
  exact ⟨_, rfl⟩

end Tropel
