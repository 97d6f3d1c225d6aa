import Tropel.Lib.SortBy
import Tropel.Metrics.Distributed

/-!
# Tag policies

An output may forward certain tags only, and a certain number of them.
-/

namespace Tropel

open Lib

structure TagPolicy where
  allowlist : List String
  maxTags : Option ℕ

namespace TagPolicy

def default : TagPolicy := ⟨[], none⟩

def apply (p : TagPolicy) (tags : TagMap) : TagMap :=
  if p.allowlist.isEmpty && p.maxTags.isNone then tags
  else
    let out : TagMap :=
      if p.allowlist.isEmpty then tags.entries.foldl (fun out e => out.insert e.1 e.2) (.ofPairs [])
      else
        tags.entries.foldl (fun out e => if p.allowlist.any (· == e.1) then out.insert e.1 e.2
          else out) (.ofPairs [])
    match p.maxTags with
    | some cap =>
      if out.entries.length > cap then .ofPairs ((sortByKey Prod.fst out.entries).take cap) else out
    | none => out

end TagPolicy

end Tropel
