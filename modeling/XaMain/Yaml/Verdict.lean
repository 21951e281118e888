import XaMain.Yaml.Document

/-!
# What a stream holds for the loader

A stream is a sequence of documents, and the root of each is any node: a scalar, an alias, a
sequence or a mapping.  The loader looks for the first document with a collection as its root, and
there for the first thing it cannot represent.  Both are said here of the documents alone:

* `Tree.fault` is the first thing in a document, in the order of its events, that stands in the way,
  and `Tree.untilFault` the events up to there.
* `verdict` is what the stream comes down to: no document with a collection as its root, one that
  can be loaded, or the fault of one that cannot; and `examined` the events that decide it.

A load may go on from a node that already has keys, and then a key of the root is also a fault if
the node has it; so the definitions about a root take the keys that are there.
-/

set_option autoImplicit false

namespace XaMain
namespace Yaml

/-- What stands in the way of loading a document. -/
inductive Fault where
  /-- An alias in the place of a value. -/
  | alias
  /-- A key that the mapping has already. -/
  | duplicate (key : String)
  /-- A key that is not a scalar. -/
  | badKey
  deriving DecidableEq

namespace Tree

instance : DecidablePred IsCollection
  | .scalar _ | .alias => .isFalse id
  | .sequence _ | .mapping _ => .isTrue trivial

mutual

/-- The first fault of a document, in the order of its events. -/
def fault : Tree → Option Fault
  | .scalar _ => none
  | .alias => some .alias
  | .sequence ts => faultAll ts
  | .mapping es => faultEntries [] es

/-- The first fault of the elements of a sequence. -/
def faultAll : List Tree → Option Fault
  | [] => none
  | t :: ts => t.fault.or (faultAll ts)

/-- The first fault of the entries of a mapping that has `keys` already. -/
def faultEntries (keys : List String) : List (Tree × Tree) → Option Fault
  | [] => none
  | (.scalar k, v) :: es =>
    if k ∈ keys then some (.duplicate k) else v.fault.or (faultEntries (k :: keys) es)
  | (_, _) :: _ => some .badKey

end

mutual

/-- The events of a document that has a fault, up to the one of the fault. -/
def untilFault : Tree → List EventData
  | .scalar v => [.scalar v]
  | .alias => [.alias]
  | .sequence ts => .sequenceStart :: untilFaultAll ts
  | .mapping es => .mappingStart :: untilFaultEntries [] es

/-- The events of the elements of a sequence, up to the one of the fault. -/
def untilFaultAll : List Tree → List EventData
  | [] => []
  | t :: ts => if t.fault.isSome then t.untilFault else t.events ++ untilFaultAll ts

/-- The events of the entries of a mapping that has `keys` already, up to the one of the fault. -/
def untilFaultEntries (keys : List String) : List (Tree × Tree) → List EventData
  | [] => []
  | (.scalar k, v) :: es =>
    .scalar k :: if k ∈ keys then [] else
      if v.fault.isSome then v.untilFault else v.events ++ untilFaultEntries (k :: keys) es
  | (k, _) :: _ => k.events.take 1

end

/-- The first fault of a root that is loaded onto a mapping that has `keys` already. -/
def faultIn (keys : List String) : Tree → Option Fault
  | .mapping es => faultEntries keys es
  | t => t.fault

/-- The events of such a root that has a fault, up to the one of the fault. -/
def untilFaultIn (keys : List String) : Tree → List EventData
  | .mapping es => .mappingStart :: untilFaultEntries keys es
  | t => t.untilFault

/-- The events of such a root, up to the fault or to its end. -/
def examined (keys : List String) (t : Tree) : List EventData :=
  if (t.faultIn keys).isSome then t.untilFaultIn keys else t.events

/-! ## The events up to a fault -/

theorem untilFault_eq_cons (t : Tree) : ∃ d ds, t.untilFault = d :: ds := by
  cases t <;> simp [untilFault]

mutual

theorem untilFault_isPrefix : ∀ t : Tree, t.fault.isSome = true → t.untilFault <+: t.events
  | .scalar _, h => by simp [fault] at h
  | .alias, _ => List.prefix_rfl
  | .sequence ts, h => by
    have hall := untilFaultAll_isPrefix ts h
    exact (List.prefix_cons_inj _).mpr (hall.trans (List.prefix_append _ _))
  | .mapping es, h => by
    have hentries := untilFaultEntries_isPrefix es [] h
    exact (List.prefix_cons_inj _).mpr (hentries.trans (List.prefix_append _ _))

theorem untilFaultAll_isPrefix : ∀ ts : List Tree, (faultAll ts).isSome = true →
    untilFaultAll ts <+: eventsAll ts
  | [], h => by simp [faultAll] at h
  | t :: ts, h => by
    rw [untilFaultAll, eventsAll]
    by_cases ht : t.fault.isSome = true
    · rw [if_pos ht]
      exact (untilFault_isPrefix t ht).trans (List.prefix_append _ _)
    · rw [if_neg ht]
      have hts : (faultAll ts).isSome = true := by simpa [faultAll, ht] using h
      exact (List.prefix_append_right_inj _).mpr (untilFaultAll_isPrefix ts hts)

theorem untilFaultEntries_isPrefix : ∀ (es : List (Tree × Tree)) (keys : List String),
    (faultEntries keys es).isSome = true → untilFaultEntries keys es <+: eventsEntries es
  | [], keys, h => by simp [faultEntries] at h
  | (.scalar k, v) :: es, keys, h => by
    rw [untilFaultEntries, eventsEntries, events, List.singleton_append, List.prefix_cons_inj]
    by_cases hk : k ∈ keys
    · rw [if_pos hk]
      exact List.nil_prefix
    · rw [if_neg hk]
      by_cases hv : v.fault.isSome = true
      · rw [if_pos hv]
        exact (untilFault_isPrefix v hv).trans (List.prefix_append _ _)
      · rw [if_neg hv]
        have hes : (faultEntries (k :: keys) es).isSome = true := by
          simpa [faultEntries, hk, hv] using h
        exact (List.prefix_append_right_inj _).mpr (untilFaultEntries_isPrefix es (k :: keys) hes)
  | (.alias, v) :: es, keys, _ => by simp [untilFaultEntries, eventsEntries, events]
  | (.sequence ts, v) :: es, keys, _ => by simp [untilFaultEntries, eventsEntries, events]
  | (.mapping es', v) :: es, keys, _ => by simp [untilFaultEntries, eventsEntries, events]

end

/-- The events of a document. -/
def document (t : Tree) : List EventData := .documentStart :: (t.events ++ [.documentEnd])

/-- The events of a stream of documents. -/
def streamOf (ts : List Tree) : List EventData :=
  .streamStart :: (ts.flatMap document ++ [.streamEnd])

end Tree

/-- What a stream holds for the loader. -/
inductive Verdict where
  /-- There is no document with a collection as its root. -/
  | nothing
  /-- The first one can be loaded. -/
  | document (t : Tree)
  /-- The first one cannot be loaded. -/
  | fault (f : Fault)

/-- What the documents hold for a load onto a mapping that has `keys` already. -/
def verdict (keys : List String) : List Tree → Verdict
  | [] => .nothing
  | t :: ts =>
    if t.IsCollection then
      match t.faultIn keys with
      | none => .document t
      | some f => .fault f
    else
      verdict keys ts

/-- The events of the documents that the loader has to look at. -/
def examinedFrom (keys : List String) : List Tree → List EventData
  | [] => [.streamEnd]
  | t :: ts =>
    if t.IsCollection then .documentStart :: t.examined keys else t.document ++ examinedFrom keys ts

/-- The events of a stream that the loader has to look at: up to the end of the first root that is a
collection, to its fault if it has one, or to the end of the stream if there is no such root. -/
def examined (keys : List String) (ts : List Tree) : List EventData :=
  .streamStart :: examinedFrom keys ts

end Yaml
end XaMain
