/-
# What a call of `sync_processes` does to objects

The calls `sync_processes` makes are read off what its statements do: the trace records each call of
`start` and `stop` and each `SIGKILL` of `kill`, and the map before and after a statement says which
objects have left it and which have come into it. A statement that only looks as if it started or
removed an object adds nothing to the log.

The destructor is part of the call where the call drops the last reference. A handler in a nested
wait calls `start` and `stop` too; its statements are not those of the call, and what they do is not
logged.
-/
import Supervisorcpp.Manager.Nested

namespace Supervisorcpp

/-! ## The log -/

/-- What is done to an object: it comes into the map or leaves it, or `start`, `stop` or `kill` is
called on it. -/
inductive OwnCall where
  | added (obj : ObjId)
  | removed (obj : ObjId)
  | started (obj : ObjId)
  | stopped (obj : ObjId)
  | killed (obj : ObjId)
  deriving DecidableEq, Repr

/-- The call of a member function that this event records. -/
def Event.ownCall : Event → Option OwnCall
  | .startCalled o _ => some (.started o)
  | .stopCalled o => some (.stopped o)
  | .signaled record =>
    if record.sender = .forceKill ∨ record.sender = .destructor then some (.killed record.obj)
    else none
  | _ => none

/-- The member functions called between two worlds, in order. -/
def eventCalls (w w' : World) : List OwnCall :=
  (w'.trace.take (w'.trace.length - w.trace.length)).reverse.filterMap Event.ownCall

/-- The objects that have left the map between two worlds, and those that have come into it. -/
def mapChanges (w w' : World) : List OwnCall :=
  ((List.range w'.nextObj).filter fun o => w.mapped o && !w'.mapped o).map OwnCall.removed ++
    ((List.range w'.nextObj).filter fun o => !w.mapped o && w'.mapped o).map OwnCall.added

/-- Everything that was done to objects between two worlds. -/
def callsBetween (w w' : World) : List OwnCall := eventCalls w w' ++ mapChanges w w'

/-- The statements of `sync_processes` and of the functions it calls, destructors included. -/
def Frame.ofSync : Frame → Bool
  | .syncRemove _ _ | .syncAdd _ | .startProcess _ | .removeProcess _ | .addProcess _
  | .waitStop _ _ _ (.erase _) | .release _ | .destructorWait _ => true
  | _ => false

/-- What one step adds to the log: all that a statement of the call does to objects. -/
def ownCalls (s : Sys) (i : Input) : List OwnCall :=
  match i, s.stack, step s i with
  | .exec _, frame :: _, some s' => if frame.ofSync then callsBetween s.world s'.world else []
  | _, _, _ => []

/-- Calls that add nothing to the starts. -/
def StartsNothing (calls : List OwnCall) : Prop := ∀ o, .started o ∉ calls

section Logged

variable {s s' : Sys} {i : Input} {env : Answers} {frame : Frame} {rest : List Frame}

/-- Only statements do anything to objects. -/
theorem ownCalls_outside (h : ∀ env, i ≠ .exec env) : ownCalls s i = [] := by
  cases i with
  | exec env => exact absurd rfl (h env)
  | _ => rfl

/-- What a statement adds to the log. -/
theorem ownCalls_exec (hs : s.stack = frame :: rest) (hstep : step s (.exec env) = some s') :
    ownCalls s (.exec env) = if frame.ofSync then callsBetween s.world s'.world else [] := by
  simp only [ownCalls, hs, hstep]

end Logged

/-! ## What the calls of member functions log -/

section Calls

variable {w w' v : World} {o : ObjId} {env : Env} {e : Entry} {r : Bool}

/-- The calls between two worlds are those of the events between them. -/
theorem eventCalls_of_append (evs : List Event) (h : w'.trace = evs ++ w.trace) :
    eventCalls w w' = evs.reverse.filterMap Event.ownCall := by
  unfold eventCalls
  rw [h, List.length_append, Nat.add_sub_cancel, List.take_left]

theorem eventCalls_of_trace (h : w'.trace = w.trace) : eventCalls w w' = [] :=
  eventCalls_of_append [] h

/-- `start` is called once. -/
theorem callStart_eventCalls (h : w.callStart o env = some (w', r)) :
    eventCalls w w' = [.started o] := by
  obtain ⟨p, _, ⟨_, _, rfl⟩ | ⟨_, _, q, _, _, _, rfl⟩ | ⟨_, _, q, pid, _, _, _, _, rfl⟩⟩ :=
    World.callStart_cases h
  · exact eventCalls_of_append [.startCalled o p.config.name] rfl
  · exact eventCalls_of_append [.startCalled o p.config.name] rfl
  · exact eventCalls_of_append [.forked _ .explicit, .startCalled o p.config.name] rfl

/-- `stop` is called once, whether it signals the child or refuses. -/
theorem callStop_eventCalls (h : w.callStop o env = some (w', r)) :
    eventCalls w w' = [.stopped o] := by
  obtain ⟨p, _, ⟨_, _, rfl⟩ | ⟨_, _, _, q, _, _, _, _, rfl⟩⟩ := World.callStop_cases h
  · exact eventCalls_of_append [.stopCalled o] rfl
  · rw [eventCalls_of_append [.signaled _, .stopCalled o] rfl]
    rfl

/-- The destructor kills its own object. -/
theorem callKill_eventCalls (h : w.callKill o .destructor env = some w') :
    eventCalls w w' = [.killed o] := by
  obtain ⟨p, _, rfl⟩ := Option.map_eq_some_iff.mp h
  rw [eventCalls_of_append [.signaled _] rfl]
  rfl

/-- Reaping calls none of the three. -/
theorem handleSigchld_eventCalls (w : World) : eventCalls w w.handleSigchld.1 = [] := by
  obtain ⟨evs, htrace, hall⟩ := World.reapAll_appends w.exitedChildren w
  have hcalls : eventCalls w w.handleSigchld.1 = evs.reverse.filterMap Event.ownCall :=
    eventCalls_of_append _ htrace
  rw [hcalls, List.filterMap_eq_nil_iff]
  intro ev hev
  obtain ⟨o, c, rfl⟩ := hall ev (List.mem_reverse.mp hev)
  rfl

theorem mapped_congr (hmap : w'.processMap = w.processMap) : w'.mapped = w.mapped := by
  funext o
  unfold World.mapped
  rw [hmap]

/-- The same map: nothing added, nothing removed. -/
theorem mapChanges_of_map (hmap : w'.processMap = w.processMap) : mapChanges w w' = [] := by
  simp [mapChanges, mapped_congr hmap]

/-- The map alone says nothing about calls. -/
theorem mem_mapChanges {c : OwnCall} (h : c ∈ mapChanges w w') :
    (∃ o, c = .removed o) ∨ ∃ o, c = .added o := by
  rcases List.mem_append.mp h with h | h
  · obtain ⟨o, _, rfl⟩ := List.mem_map.mp h
    exact .inl ⟨o, rfl⟩
  · obtain ⟨o, _, rfl⟩ := List.mem_map.mp h
    exact .inr ⟨o, rfl⟩

/-- A world that is given back as it was. -/
theorem callsBetween_self (w : World) : callsBetween w w = [] := by
  rw [callsBetween, eventCalls_of_trace rfl, mapChanges_of_map rfl]
  rfl

/-- A call of a member function leaves the map alone. -/
theorem callsBetween_of_sameMap (h : w.SameMap w') : callsBetween w w' = eventCalls w w' := by
  rw [callsBetween, mapChanges_of_map h.processMap, List.append_nil]

end Calls

end Supervisorcpp
