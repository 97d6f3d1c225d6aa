import Tropel.Lib.Rust
import Tropel.Lib.Wire

/-!
# Frames

Messages between the nodes travel as *frames*: a length of four bytes, and that many bytes
(`writeFrame`).

* `readFrame`: the frame that is received, in chunks;
* `frames_roundTrip`: messages are read back from any stream of them.
-/

namespace Tropel

open Lib Lib.Wire List Nat

def maxFrame : ℕ := 512 * 1024 * 1024

def chunkSize : ℕ := 64 * 1024

structure Codec (T E : Type) where
  toVec : T → List UInt8
  fromSlice : List UInt8 → Except E T
  fromSlice_toVec : ∀ m, fromSlice (toVec m) = .ok m

inductive FrameError (E : Type)
  | eof
  | tooLarge (len : ℕ)
  | deserialize (e : E)
  deriving DecidableEq

def toBeBytes (n : ℕ) : List UInt8 := (le 4 n).reverse

def fromBeBytes (bytes : List UInt8) : ℕ := ((readLe 4 bytes.reverse).map Prod.fst).getD 0

variable {T E : Type} (codec : Codec T E)

def writeFrame (msg : T) : Except (FrameError E) (List UInt8) :=
  let data := codec.toVec msg
  if data.length > maxFrame then .error (.tooLarge data.length)
    else .ok (toBeBytes data.length ++ data)

inductive FrameReader
  | header (got : List UInt8)
  | body (len capacity : ℕ) (data filled : List UInt8)
  deriving DecidableEq

namespace FrameReader

def wants : FrameReader → ℕ
  | header got => 4 - got.length
  | body len _ data filled => min (len - data.length) chunkSize - filled.length

def finish (data : List UInt8) : Except (FrameError E) T :=
  (codec.fromSlice data).mapError .deserialize

def accept (bytes : List UInt8) : FrameReader → FrameReader ⊕ Except (FrameError E) T
  | header got =>
    let got := got ++ bytes
    if got.length < 4 then .inl (header got)
    else
      let len := fromBeBytes got
      if len > maxFrame then .inr (.error (.tooLarge len))
      else if len > 0 then .inl (body len (min len chunkSize) [] [])
      else .inr (finish codec [])
  | body len capacity data filled =>
    let filled := filled ++ bytes
    if filled.length < min (len - data.length) chunkSize then .inl (body len capacity data filled)
    else
      let data := data ++ filled
      if len - data.length > 0 then .inl (body len capacity data []) else .inr (finish codec data)

def read (n : ℕ) : List (List UInt8) → Option (List UInt8 × List (List UInt8))
  | [] => none
  | piece :: pieces =>
    if piece = [] ∨ n = 0 then none
    else if piece.length ≤ n then some (piece, pieces)
    else some (piece.take n, piece.drop n :: pieces)

theorem read_spec {n : ℕ} {pieces rest : List (List UInt8)} {bytes : List UInt8}
    (h : read n pieces = some (bytes, rest)) :
    bytes ≠ [] ∧ bytes.length ≤ n ∧ pieces.flatten = bytes ++ rest.flatten ∧
      ([] ∉ pieces → [] ∉ rest) := by
  cases pieces with
  | nil => cases h
  | cons piece pieces =>
    rw [read] at h
    split_ifs at h with hstop hle
    · cases h
      exact ⟨fun h => hstop (.inl h), hle, flatten_cons, fun h hmem => h (mem_cons_of_mem _ hmem)⟩
    · cases h
      rw [not_or] at hstop
      have hdrop : piece.drop n ≠ [] := by
        rw [Ne, drop_eq_nil_iff]
        exact hle
      refine ⟨?_, length_take_le _ _, ?_, fun h => ?_⟩
      · rw [Ne, take_eq_nil_iff, not_or]
        exact hstop.symm
      · rw [flatten_cons, flatten_cons, ← append_assoc, take_append_drop]
      · rw [mem_cons, not_or] at h ⊢
        exact ⟨hdrop.symm, h.2⟩

def readFrom (r : FrameReader)
    (pieces : List (List UInt8)) : Except (FrameError E) T × List (List UInt8) :=
  match _h : read r.wants pieces with
  | none => (.error .eof, pieces)
  | some (bytes, rest) =>
    match r.accept codec bytes with
    | .inl r => readFrom r rest
    | .inr result => (result, rest)
termination_by pieces.flatten.length
decreasing_by
  obtain ⟨hne, -, heq, -⟩ := read_spec _h
  have := List.length_pos_iff.2 hne
  rw [heq, List.length_append]
  omega

def Got (bytes : List UInt8) : FrameReader → Prop
  | header got => bytes = got ∧ got.length < 4
  | body len capacity data filled =>
    4 ≤ bytes.length ∧ fromBeBytes (bytes.take 4) = len ∧ len ≤ maxFrame ∧
      capacity = min len chunkSize ∧ bytes.drop 4 = data ++ filled ∧ chunkSize ∣ data.length ∧
      filled.length < min (len - data.length) chunkSize

inductive Reaches : FrameReader → List UInt8 → Prop
  | start : Reaches (header []) []
  | accept {r r' : FrameReader} {bytes b : List UInt8} : Reaches r bytes → b ≠ [] →
      b.length ≤ r.wants →
      r.accept codec b = .inl r' → Reaches r' (bytes ++ b)

end FrameReader

open FrameReader

def readFrame (pieces : List (List UInt8)) : Except (FrameError E) T × List (List UInt8) :=
  readFrom codec (.header []) pieces

def parseFrame (bytes : List UInt8) : Option (Except (FrameError E) T × List UInt8) :=
  let len := fromBeBytes (bytes.take 4)
  if bytes.length < 4 then none
  else if len > maxFrame then some (.error (.tooLarge len), bytes.drop 4)
  else if bytes.length < 4 + len then none
  else some (finish codec ((bytes.drop 4).take len), bytes.drop (4 + len))

def readFrames : ℕ → List (List UInt8) → List (Except (FrameError E) T) × List (List UInt8)
  | 0, pieces => ([], pieces)
  | n + 1, pieces =>
    let (result, rest) := readFrame codec pieces
    let (results, rest) := readFrames n rest
    (result :: results, rest)

/-! ## Reading -/

variable {codec} {r : FrameReader} {bytes b : List UInt8} {pieces : List (List UInt8)}

@[simp]
theorem length_toBeBytes (n : ℕ) : (toBeBytes n).length = 4 := by
  rw [toBeBytes, length_reverse, length_le]

theorem fromBeBytes_toBeBytes {n : ℕ} (h : n < 2 ^ 32) : fromBeBytes (toBeBytes n) = n := by
  have hread := readLe_le_append (k := 4) (h.trans_le (by decide)) []
  rw [append_nil] at hread
  rw [fromBeBytes, toBeBytes, reverse_reverse, hread]
  rfl

theorem parseFrame_of_got (h : r.Got bytes) : parseFrame codec bytes = none := by
  rw [parseFrame]
  cases r with
  | header got =>
    obtain ⟨rfl, hlt⟩ := h
    exact if_pos hlt
  | body len capacity data filled =>
    obtain ⟨hle, rfl, hmax, -, hdrop, -, hfilled⟩ := h
    have hlen := congrArg List.length hdrop
    rw [length_drop, length_append] at hlen
    rw [if_neg (by omega), if_neg (by omega), if_pos (by omega)]

theorem FrameReader.Got.wants_pos (h : r.Got bytes) : 0 < r.wants := by
  cases r with
  | header got => exact Nat.sub_pos_of_lt h.2
  | body len capacity data filled => exact Nat.sub_pos_of_lt h.2.2.2.2.2.2

theorem accept_spec (h : r.Got bytes) (hb : b ≠ []) (hwants : b.length ≤ r.wants) :
    match r.accept codec b with
    | .inl r' => r'.Got (bytes ++ b)
    | .inr result => ∀ rest, parseFrame codec (bytes ++ b ++ rest) = some (result, rest) := by
  have hpos := length_pos_iff.2 hb
  cases r with
  | header got =>
    obtain ⟨rfl, hlt⟩ := h
    rw [wants] at hwants
    rw [FrameReader.accept]
    dsimp only
    split_ifs with hshort hlarge hzero
    · exact ⟨rfl, hshort⟩
    all_goals
      have hfour : (bytes ++ b).length = 4 := by
        rw [length_append] at hshort ⊢
        omega
      have htake (rest : List UInt8) : (bytes ++ b ++ rest).take 4 = bytes ++ b := by
        rw [← hfour, take_left]
      have hdrop (rest : List UInt8) : (bytes ++ b ++ rest).drop 4 = rest := by
        rw [← hfour, drop_left]
    · intro rest
      rw [parseFrame, htake, hdrop, if_neg (by simp [← hfour]), if_pos hlarge]
    · refine ⟨hfour.ge, by
        rw [← hfour, take_length], by omega, rfl, by rw [← hfour, drop_length]; rfl, dvd_zero _, ?_⟩
      have : chunkSize = 65536 := rfl
      simp only [length_nil, Nat.sub_zero]
      omega
    · intro rest
      have hnil : fromBeBytes (bytes ++ b) = 0 := by omega
      rw [parseFrame, htake, hnil, hdrop, if_neg (by simp [← hfour]), if_neg (by omega),
        if_neg (by simp [← hfour])]
      rfl
  | body len capacity data filled =>
    obtain ⟨hle, hlen, hmax, hcap, hdrop, hdvd, hfilled⟩ := h
    rw [wants] at hwants
    have htake : (bytes ++ b).take 4 = bytes.take 4 := take_append_of_le_length hle
    have hdrop' : (bytes ++ b).drop 4 = data ++ (filled ++ b) := by
      rw [drop_append_of_le_length hle, hdrop, append_assoc]
    have hle' : 4 ≤ (bytes ++ b).length := by rw [length_append]; omega
    rw [FrameReader.accept]
    dsimp only
    split_ifs with hshort hmore
    · exact ⟨hle', by rw [htake, hlen], hmax, hcap, hdrop', hdvd, hshort⟩
    · rw [length_append] at hshort hmore
      rw [length_append] at hmore
      refine ⟨hle', by rw [htake, hlen], hmax, hcap, by rw [hdrop', append_nil], ?_, ?_⟩
      · have hfull : (filled ++ b).length = chunkSize := by rw [length_append]; omega
        rw [length_append, hfull]
        exact Nat.dvd_add hdvd (Nat.dvd_refl _)
      · simp only [length_append, length_nil]
        omega
    · intro rest
      have hall : (data ++ (filled ++ b)).length = len := by
        rw [length_append, length_append] at hmore ⊢
        omega
      have hsize : (bytes ++ b).length = 4 + len := by
        rw [← hall, ← hdrop', length_drop]
        omega
      rw [parseFrame, take_append_of_le_length hle', htake, hlen, if_neg (by simp; omega),
        if_neg (by omega), if_neg (by rw [length_append, hsize]; omega),
          drop_append_of_le_length hle', hdrop', ← hsize,
        drop_left, ← hall, take_left]

theorem readFrom_eq_match (codec : Codec T E) (r : FrameReader) (pieces : List (List UInt8)) :
    readFrom codec r pieces = match read r.wants pieces with
      | none => (.error .eof, pieces)
      | some (bytes, rest) => match r.accept codec bytes with
        | .inl r => readFrom codec r rest
        | .inr result => (result, rest) := by
  rw [readFrom]
  split <;> simp_all

theorem readFrom_eq (h : r.Got bytes) (hpieces : [] ∉ pieces) :
    match parseFrame codec (bytes ++ pieces.flatten) with
    | none => (readFrom codec r pieces).1 = .error .eof
    | some (result, rest) =>
      ∃ rest', readFrom codec r pieces = (result, rest') ∧ rest'.flatten = rest ∧ [] ∉ rest' := by
  induction hn :
    pieces.flatten.length using Nat.strong_induction_on generalizing r bytes pieces with
  | _ n ih =>
    rw [readFrom_eq_match]
    cases hread : read r.wants pieces with
    | none =>
      -- The reader asks for something, so the stream has ended.
      have hnil : pieces = [] := by
        cases pieces with
        | nil => rfl
        | cons piece pieces =>
          rw [FrameReader.read] at hread
          split_ifs at hread with hstop
          rcases hstop with rfl | hstop
          · exact absurd mem_cons_self hpieces
          · exact absurd hstop h.wants_pos.ne'
      rw [hnil, flatten_nil, append_nil, parseFrame_of_got h]
    | some p =>
      obtain ⟨b, rest⟩ := p
      obtain ⟨hne, hle, heq, hrest⟩ := read_spec hread
      have haccept := @accept_spec _ _ codec _ _ _ h hne hle
      cases hr' : r.accept codec b with
      | inl r' =>
        rw [hr'] at haccept
        have hlt : rest.flatten.length < n := by
          have := length_pos_iff.2 hne
          rw [← hn, heq, length_append]
          omega
        have hnext := ih _ hlt haccept (hrest hpieces) rfl
        rw [append_assoc, ← heq] at hnext
        dsimp only
        rw [hr']
        exact hnext
      | inr result =>
        rw [hr'] at haccept
        rw [heq, ← append_assoc, haccept rest.flatten]
        dsimp only
        rw [hr']
        exact ⟨rest, rfl, rfl, hrest hpieces⟩

theorem readFrame_eq (hpieces : [] ∉ pieces) : match parseFrame codec pieces.flatten with
    | none => (readFrame codec pieces).1 = .error .eof
    | some (result, rest) =>
      ∃ rest', readFrame codec pieces = (result, rest') ∧ rest'.flatten = rest ∧ [] ∉ rest' :=
  readFrom_eq (show Got [] (.header []) from ⟨rfl, by decide⟩) hpieces

theorem parseFrame_frame {m : T} (h : (codec.toVec m).length ≤ maxFrame) (rest : List UInt8) :
    parseFrame codec (toBeBytes (codec.toVec m).length ++ codec.toVec m ++ rest) =
      some (.ok m, rest) := by
  have hlt : (codec.toVec m).length < 2 ^ 32 := h.trans_lt (by decide)
  have hfour (t : List UInt8) : (toBeBytes (codec.toVec m).length ++ t).drop 4 = t := by
    rw [← length_toBeBytes (codec.toVec m).length, drop_left]
  rw [append_assoc, parseFrame, take_append_of_le_length (by simp), take_of_length_le (by simp),
    fromBeBytes_toBeBytes hlt, if_neg (by simp), if_neg h.not_gt, if_neg (by simp), ← drop_drop,
      hfour,
    take_left, drop_left, finish, codec.fromSlice_toVec]
  rfl

theorem readFrames_writeFrame {msgs : List T} (h : ∀ m ∈ msgs, (codec.toVec m).length ≤ maxFrame)
    {tail : List UInt8} (hpieces : [] ∉ pieces)
    (hflat : pieces.flatten =
      (msgs.flatMap fun m => toBeBytes (codec.toVec m).length ++ codec.toVec m) ++ tail) :
    ∃ rest, readFrames codec msgs.length pieces = (msgs.map .ok, rest) ∧ rest.flatten = tail := by
  induction msgs generalizing pieces with
  | nil => exact ⟨pieces, rfl, hflat⟩
  | cons m msgs ih =>
    rw [forall_mem_cons] at h
    have hread := @readFrame_eq _ _ codec _ hpieces
    rw [hflat, flatMap_cons, append_assoc, parseFrame_frame h.1] at hread
    obtain ⟨rest', hread, hrest', hne⟩ := hread
    obtain ⟨rest, hreads, hrest⟩ := ih h.2 hne hrest'
    refine ⟨rest, ?_, hrest⟩
    rw [length_cons, readFrames, hread]
    dsimp only
    rw [hreads]
    rfl

theorem FrameReader.Reaches.got (h : Reaches codec r bytes) : r.Got bytes := by
  induction h with
  | start => exact ⟨rfl, by decide⟩
  | accept _ hne hle haccept ih =>
    have hspec := @accept_spec _ _ codec _ _ _ ih hne hle
    rwa [haccept] at hspec

/-- Messages up to the largest size are read back from a stream that is cut in any way, which is
    left with what comes after them. A stream that ends in a frame, or announces one that is too
    large, is an error. On the way, the body and the filled part of the chunk are what was
    received. -/
theorem frames_roundTrip (codec : Codec T E) :
    (∀ msgs : List T, (∀ m ∈ msgs, (codec.toVec m).length ≤ maxFrame) →
      ∃ frames, msgs.mapM (writeFrame codec) = .ok frames ∧ ∀ pieces tail, [] ∉ pieces →
        pieces.flatten = frames.flatten ++ tail →
        ∃ rest, readFrames codec msgs.length pieces = (msgs.map .ok, rest) ∧ rest.flatten = tail) ∧
    (∀ pieces, [] ∉ pieces →
      (4 ≤ pieces.flatten.length → fromBeBytes (pieces.flatten.take 4) ≤ maxFrame ∧
      pieces.flatten.length < 4 + fromBeBytes (pieces.flatten.take 4)) →
        (readFrame codec pieces).1 = .error .eof) ∧
    (∀ pieces, [] ∉ pieces → 4 ≤ pieces.flatten.length →
      maxFrame < fromBeBytes (pieces.flatten.take 4) →
        (readFrame codec pieces).1 = .error (.tooLarge (fromBeBytes (pieces.flatten.take 4)))) ∧
    ∀ len capacity data filled bytes, Reaches codec (.body len capacity data filled) bytes →
      bytes.drop 4 = data ++ filled ∧ data.length = chunkSize * ((bytes.length - 4) / chunkSize) ∧
        filled.length < chunkSize ∧ capacity ≤ 64 * 1024 := by
  refine ⟨fun msgs h => ⟨msgs.map fun m => toBeBytes (codec.toVec m).length ++ codec.toVec m, ?_,
    ?_⟩, ?_, ?_, ?_⟩
  · refine mapM_eq_ok_map fun m hm => ?_
    rw [writeFrame, if_neg (h m hm).not_gt]
  · intro pieces tail hpieces hflat
    exact readFrames_writeFrame h hpieces (by rw [hflat, flatMap_def])
  · intro pieces hpieces hshort
    have hread := @readFrame_eq _ _ codec _ hpieces
    have hnone : parseFrame codec pieces.flatten = none := by
      rw [parseFrame]
      split_ifs with h₁ h₂ h₃
      · rfl
      · exact absurd (hshort (by omega)).1 h₂.not_ge
      · rfl
      · exact absurd (hshort (by omega)).2 h₃
    rwa [hnone] at hread
  · intro pieces hpieces hle hlarge
    have hread := @readFrame_eq _ _ codec _ hpieces
    rw [parseFrame, if_neg hle.not_gt, if_pos hlarge] at hread
    obtain ⟨rest, hread, -⟩ := hread
    rw [hread]
  · intro len capacity data filled bytes hreaches
    obtain ⟨hle, -, -, rfl, hdrop, ⟨n, hn⟩, hfilled⟩ := hreaches.got
    have hchunk : chunkSize = 65536 := rfl
    have hlen := congrArg List.length hdrop
    rw [length_drop, length_append] at hlen
    refine ⟨hdrop, ?_, by omega, by omega⟩
    rw [hlen, hn, mul_add_div (by decide), div_eq_of_lt (by omega), add_zero]

theorem reaches_lagging :
    Reaches (⟨id, .ok, fun _ => rfl⟩ : Codec (List UInt8) Empty) (.body 2 2 [] [7])
      [0, 0, 0, 2, 7] := by
  have hlen : Reaches (⟨id, .ok, fun _ => rfl⟩ : Codec (List UInt8) Empty) (.body 2 2 [] [])
      [0, 0, 0, 2] :=
    .accept .start (by decide) (by decide) rfl
  exact .accept hlen (by decide) (by decide) rfl

end Tropel
