import ReactiveVars.Order.KeyMap
import ReactiveVars.Wire.Message

/-!
# Who watches what

The tally keeps for each variable the observers that watch it, and tells the first watcher of a
variable and the last from the others. A variable without watchers has no entry.
-/

namespace ReactiveVars

/-- The name of an observer. -/
abbrev Observer := String

/-- The observers of each watched variable. -/
structure WatchTally where
  watched : KeyMap VarId (KeyMap Observer Unit)

namespace WatchTally

/-- The tally in which nothing is watched. -/
def empty : WatchTally := ⟨.empty⟩

/-- The observers of a variable as a set. -/
def observers (t : WatchTally) (id : VarId) : KeyMap Observer Unit :=
  (t.watched.get? id).getD .empty

/-- The observers of a variable in order. -/
def watchers (t : WatchTally) (id : VarId) : List Observer := (t.observers id).keys

/-- The number of observers of a variable. -/
def count (t : WatchTally) (id : VarId) : Nat := (t.observers id).size

/-- Whether an observer watches a variable. -/
def isWatching (t : WatchTally) (id : VarId) (observer : Observer) : Bool :=
  (t.observers id).contains observer

/-- What counting a watcher in or out amounts to: whether it is the first to come or the last to go,
and how many there are afterwards. -/
structure Outcome where
  /-- Whether the watcher is the first to come, or the last to go. -/
  edge : Bool
  /-- How many watchers there are afterwards. -/
  count : Nat
deriving DecidableEq

/-- Counts an observer in; one that watches already is not counted twice. -/
def watch (t : WatchTally) (id : VarId) (observer : Observer) : Outcome × WatchTally :=
  let set := (t.observers id).insert observer ()
  (⟨(t.observers id).isEmpty, set.size⟩, ⟨t.watched.insert id set⟩)

/-- Counts an observer out. -/
def unwatch (t : WatchTally) (id : VarId) (observer : Observer) : Outcome × WatchTally :=
  let set := (t.observers id).erase observer
  (⟨t.isWatching id observer && set.isEmpty, set.size⟩,
    ⟨if set.isEmpty then t.watched.erase id else t.watched.insert id set⟩)

/-- The variables whose only watcher is the observer, ascending. -/
def onlyWatchedBy (t : WatchTally) (observer : Observer) : List VarId :=
  (t.watched.filterMap fun _ set ↦
    if set.contains observer && (set.erase observer).isEmpty then some () else none).keys

/-- Counts an observer out everywhere; returns the variables that are left without a watcher. -/
def unwatchAll (t : WatchTally) (observer : Observer) : List VarId × WatchTally :=
  (t.onlyWatchedBy observer, ⟨t.watched.filterMap fun _ set ↦
    let rest := set.erase observer
    if rest.isEmpty then none else some rest⟩)

/-- Drops a variable; returns those who watched it. -/
def forget (t : WatchTally) (id : VarId) : List Observer × WatchTally :=
  (t.watchers id, ⟨t.watched.erase id⟩)

end WatchTally

end ReactiveVars
