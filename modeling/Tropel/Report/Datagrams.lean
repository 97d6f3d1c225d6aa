import Tropel.Lib.Packing
import Tropel.Lib.Text

/-!
# Lines in datagrams

The StatsD and InfluxDB outputs buffer lines, and send them in datagrams, with line breaks between
them.

* `flush_datagrams`: what a flush sends.
-/

namespace Tropel

open Lib List

inductive UdpOutput
  | statsd | influxdb
  deriving DecidableEq

def UdpOutput.maxDatagramBytes : UdpOutput → ℕ
  | statsd => 8 * 1024
  | influxdb => 8 * 1024

structure UdpNetwork where
  binds : Bool
  sends : ℕ → Bool

def UdpNetwork.Works (net : UdpNetwork) : Prop := net.binds = true ∧ ∀ n, net.sends n = true

def UdpNetwork.sendTo (net : UdpNetwork) (sent : List Text)
    (datagram : Text) : Except (List Text) (List Text) :=
  if net.sends sent.length then .ok (sent ++ [datagram]) else .error sent

def joinLines (chunk : List Text) : Text := ['\n'].intercalate chunk

def sendLines (net : UdpNetwork) (maxBytes : ℕ) (sent chunk : List Text) (chunkLen : ℕ) :
    List Text → Except (List Text) (List Text)
  | [] => if chunk.isEmpty then .ok sent else net.sendTo sent (joinLines chunk)
  | line :: lines =>
    if !chunk.isEmpty && decide (chunkLen + byteLen line + 1 > maxBytes) then do
      let sent ← net.sendTo sent (joinLines chunk)
      sendLines net maxBytes sent [line] (0 + (byteLen line + 1)) lines
    else sendLines net maxBytes sent (chunk ++ [line]) (chunkLen + (byteLen line + 1)) lines

variable (o : UdpOutput)

def UdpOutput.flushBuffered (net : UdpNetwork)
    (lines : List Text) : Except (List Text) (List Text) :=
  if lines.isEmpty then .ok []
  else if net.binds then sendLines net o.maxDatagramBytes [] [] 0 lines
  else .error []

/-! ## Packs -/

def lineSize (line : Text) : ℕ := byteLen line + 1

def UdpNetwork.sendAll (net : UdpNetwork) (sent : List Text)
    (datagrams : List Text) : Except (List Text) (List Text) :=
  datagrams.foldlM net.sendTo sent

theorem sendLines_eq (net : UdpNetwork) (maxBytes : ℕ) (sent chunk lines : List Text) :
    sendLines net maxBytes sent chunk (chunk.map lineSize).sum lines =
      net.sendAll sent ((packFrom lineSize maxBytes chunk lines).map joinLines) := by
  induction lines generalizing sent chunk with
  | nil =>
    rw [sendLines, packFrom]
    split
    next => rfl
    next =>
      rw [map_singleton, UdpNetwork.sendAll, foldlM_cons]
      exact (bind_pure _).symm
  | cons line lines ih =>
    rw [sendLines, packFrom, Nat.add_assoc, ← lineSize]
    split
    next =>
      rw [map_cons, UdpNetwork.sendAll, foldlM_cons]
      refine bind_congr fun sent' => ?_
      have hrest := ih sent' [line]
      rw [map_singleton, sum_singleton] at hrest
      rw [Nat.zero_add, hrest, UdpNetwork.sendAll]
    next =>
      rw [← ih, map_append, sum_append, map_singleton, sum_singleton]

variable {lines : List Text} {net : UdpNetwork}

theorem UdpNetwork.sendAll_of_works (h : net.Works) (sent datagrams : List Text) :
    net.sendAll sent datagrams = .ok (sent ++ datagrams) := by
  induction datagrams generalizing sent with
  | nil => rw [append_nil]; rfl
  | cons d ds ih =>
    rw [sendAll, foldlM_cons, sendTo, if_pos (h.2 _)]
    refine (ih (sent ++ [d])).trans ?_
    rw [append_assoc, singleton_append]

theorem UdpNetwork.isPrefix_of_sendAll {sent datagrams out : List Text}
    (h : net.sendAll sent datagrams = .ok out ∨ net.sendAll sent datagrams = .error out) :
    out <+: sent ++ datagrams := by
  induction datagrams generalizing sent with
  | nil =>
    rw [append_nil]
    rcases h with h | h
    · cases h
      exact prefix_rfl
    · cases h
  | cons d ds ih =>
    rw [sendAll, foldlM_cons, sendTo] at h
    split at h
    next =>
      have hrest := ih h
      rwa [append_assoc, singleton_append] at hrest
    next =>
      rcases h with h | h
      · cases h
      · cases h
        exact prefix_append _ _

theorem byteLen_joinLines {chunk : List Text} (h : chunk ≠ []) :
    byteLen (joinLines chunk) + 1 = (chunk.map lineSize).sum := by
  induction chunk with
  | nil => exact absurd rfl h
  | cons line chunk ih =>
    rw [joinLines]
    cases chunk with
    | nil => rw [intercalate_singleton, map_singleton, sum_singleton, lineSize]
    | cons line' chunk =>
      have hrest := ih (cons_ne_nil _ _)
      have hbreak : byteLen ['\n'] = 1 := rfl
      rw [intercalate_cons_cons, byteLen_append, byteLen_append, hbreak, map_cons, sum_cons,
        ← hrest, joinLines, lineSize]
      omega

def UdpOutput.datagrams (lines : List Text) : List Text :=
  (packFrom lineSize o.maxDatagramBytes [] lines).map joinLines

theorem UdpOutput.flushBuffered_eq (net : UdpNetwork) (lines : List Text) :
    o.flushBuffered net lines =
      if lines.isEmpty || net.binds then net.sendAll [] (o.datagrams lines) else .error [] := by
  rw [flushBuffered]
  cases lines with
  | nil => rfl
  | cons line lines =>
    rw [datagrams, ← sendLines_eq]
    rfl

theorem mem_lines_of_mem_packFrom {maxBytes : ℕ} {lines pack : List Text} {line : Text}
    (hpack : pack ∈ packFrom lineSize maxBytes [] lines) (hline : line ∈ pack) : line ∈ lines := by
  have hflatten : (packFrom lineSize maxBytes [] lines).flatten = lines := flatten_packFrom
  rw [← hflatten]
  exact mem_flatten.2 ⟨pack, hpack, hline⟩

theorem flatMap_splitOn_datagrams (hbreak : ∀ line ∈ lines, '\n' ∉ line) :
    (o.datagrams lines).flatMap (·.splitOn '\n') = lines := by
  have hsplit : ∀ pack ∈ packFrom lineSize o.maxDatagramBytes [] lines,
      (joinLines pack).splitOn '\n' = pack := by
    intro pack hpack
    refine splitOn_intercalate _
      (fun line hline => hbreak line (mem_lines_of_mem_packFrom hpack hline)) ?_
    rintro rfl
    exact nil_not_mem_packFrom hpack
  rw [UdpOutput.datagrams, flatMap_map, flatMap_congr hsplit, flatMap_id']
  exact flatten_packFrom

theorem nil_not_mem_datagrams (hne : ∀ line ∈ lines, line ≠ []) : [] ∉ o.datagrams lines := by
  intro h
  obtain ⟨pack, hpack, hjoin⟩ := mem_map.1 h
  cases pack with
  | nil => exact nil_not_mem_packFrom hpack
  | cons line pack =>
    have hbytes := byteLen_joinLines (cons_ne_nil line pack)
    have hpos := byteLen_pos (hne line (mem_lines_of_mem_packFrom hpack mem_cons_self))
    rw [hjoin, map_cons, sum_cons, lineSize] at hbytes
    change 0 + 1 = _ at hbytes
    omega

theorem byteLen_le_or_of_mem_datagrams {d : Text} (hd : d ∈ o.datagrams lines) :
    byteLen d ≤ o.maxDatagramBytes ∨ d ∈ lines ∧ o.maxDatagramBytes < byteLen d := by
  obtain ⟨pack, hpack, rfl⟩ := mem_map.1 hd
  have hne : pack ≠ [] := by
    rintro rfl
    exact nil_not_mem_packFrom hpack
  rcases packed_of_mem_packFrom (.inl rfl) pack hpack with hsize | ⟨line, rfl⟩
  · rw [← byteLen_joinLines hne] at hsize
    exact .inl (Nat.le_of_succ_le hsize)
  · rw [joinLines, intercalate_singleton]
    exact (le_or_gt (byteLen line) o.maxDatagramBytes).imp_right fun hlt =>
      ⟨mem_lines_of_mem_packFrom hpack mem_cons_self, hlt⟩

/-- The datagrams of a flush hold the lines in their order. None is empty, or too large but for a
    line that is. If the network fails, only the first ones are sent. -/
theorem flush_datagrams (o : UdpOutput) {lines : List Text} (hne : ∀ line ∈ lines, line ≠ [])
    (hbreak : ∀ line ∈ lines, '\n' ∉ line) :
    ∃ datagrams : List Text,
      (∀ net : UdpNetwork, net.Works → o.flushBuffered net lines = .ok datagrams) ∧
      datagrams.flatMap (·.splitOn '\n') = lines ∧ [] ∉ datagrams ∧
      (∀ d ∈ datagrams, byteLen d ≤ o.maxDatagramBytes ∨ d ∈ lines ∧
        o.maxDatagramBytes < byteLen d) ∧
      ∀ (net : UdpNetwork) (sent : List Text),
        o.flushBuffered net lines = .ok sent ∨ o.flushBuffered net lines = .error sent →
          sent <+: datagrams := by
  refine ⟨o.datagrams lines, fun net hnet => ?_, flatMap_splitOn_datagrams o hbreak,
    nil_not_mem_datagrams o hne, fun d => byteLen_le_or_of_mem_datagrams o, fun net sent h => ?_⟩
  · rw [o.flushBuffered_eq, hnet.1, Bool.or_true, if_pos rfl, UdpNetwork.sendAll_of_works hnet,
      nil_append]
  · rw [o.flushBuffered_eq] at h
    split at h
    next => exact UdpNetwork.isPrefix_of_sendAll h
    next =>
      rcases h with h | h
      · cases h
      · cases h
        exact nil_prefix

theorem flush_datagrams_two : ∃ datagrams : List Text,
    UdpOutput.statsd.flushBuffered ⟨true, fun _ => true⟩ ["a:1|c".toList, "b:2|h".toList] =
      .ok datagrams ∧
      datagrams.flatMap (·.splitOn '\n') = ["a:1|c".toList, "b:2|h".toList] := by
  obtain ⟨datagrams, hok, hlines, -⟩ :=
    @flush_datagrams .statsd ["a:1|c".toList, "b:2|h".toList] (by decide) (by decide)
  exact ⟨datagrams, hok _ ⟨rfl, fun _ => rfl⟩, hlines⟩

end Tropel
