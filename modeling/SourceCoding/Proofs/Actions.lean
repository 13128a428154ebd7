import SourceCoding.Session

/-!
# The result of an action

What an action answers and the session it leaves, computed part by part: one equation for every
way in which actions are put together.

## Main results

* `Act.runIn_bind`: one action after another
* `Act.runIn_attempt`: a failure taken as a value
* `Act.runIn_query`, `Act.runIn_change`: a look at the tree, and an operation on it
-/

namespace SourceCoding

/-- The session with further events. -/
def Session.tell (s : Session) (es : List Event) : Session := { s with events := s.events ++ es }

@[simp] theorem Session.tell_nil (s : Session) : s.tell [] = s := by simp [Session.tell]

@[simp] theorem Session.tell_tell (s : Session) (es fs : List Event) :
    (s.tell es).tell fs = s.tell (es ++ fs) := by simp [Session.tell]

@[simp] theorem Session.tree_tell (s : Session) (es : List Event) : (s.tell es).tree = s.tree := rfl

@[simp] theorem Session.cwd_tell (s : Session) (es : List Event) : (s.tell es).cwd = s.cwd := rfl

/-- The session with another tree. -/
def Session.withTree (s : Session) (t : Tree) : Session := { s with tree := t }

@[simp] theorem Session.tree_withTree (s : Session) (t : Tree) : (s.withTree t).tree = t := rfl

@[simp] theorem Session.cwd_withTree (s : Session) (t : Tree) : (s.withTree t).cwd = s.cwd := rfl

@[simp] theorem Session.withTree_tree (s : Session) : s.withTree s.tree = s := rfl

@[simp] theorem Session.withTree_withTree (s : Session) (t u : Tree) :
    (s.withTree t).withTree u = s.withTree u := rfl

@[simp] theorem Session.withTree_tell (s : Session) (t : Tree) (es : List Event) :
    (s.tell es).withTree t = (s.withTree t).tell es := rfl

namespace Act

variable {ε δ α β : Type} (s : Session)

@[simp] theorem runIn_pure (a : α) : (pure a : Act ε α).runIn s = (.ok a, s) := rfl

@[simp] theorem runIn_throw (e : ε) : (throw e : Act ε α).runIn s = (.error e, s) := rfl

@[simp] theorem runIn_get : (get : Act ε Session).runIn s = (.ok s, s) := rfl

/-- **One action after another**: the second is not reached where the first fails. -/
@[simp] theorem runIn_bind (a : Act ε α) (f : α → Act ε β) :
    (a >>= f).runIn s =
      match a.runIn s with
      | (.ok x, s') => (f x).runIn s'
      | (.error e, s') => (.error e, s') := by
  show (ExceptT.bindCont f (a.runIn s).1 : StateM Session (Except ε β)) (a.runIn s).2 = _
  rcases a.runIn s with ⟨r | x, s'⟩ <;> rfl

/-- What one action after another answers the second answers, after the first has answered it. -/
theorem bind_eq_ok {s : Session} {a : Act ε α} {f : α → Act ε β} {y : β}
    (h : ((a >>= f).runIn s).1 = .ok y) :
    ∃ x s', a.runIn s = (.ok x, s') ∧ ((f x).runIn s').1 = .ok y := by
  rw [runIn_bind] at h
  rcases ha : a.runIn s with ⟨e | x, s'⟩ <;> rw [ha] at h
  · simp at h
  · exact ⟨x, s', rfl, h⟩

/-- Where something is known of an answer there is one. -/
theorem exists_runIn_of_map {s : Session} {a : Act ε α} {g : α → β} {y : β}
    (h : (a.runIn s).1.toOption.map g = some y) : ∃ x s', a.runIn s = (.ok x, s') ∧ g x = y := by
  rcases hr : a.runIn s with ⟨e | x, s'⟩ <;> rw [hr] at h
  · cases h
  · exact ⟨x, s', rfl, Option.some.inj h⟩

@[simp] theorem runIn_map (g : α → β) (a : Act ε α) :
    (g <$> a).runIn s =
      match a.runIn s with
      | (.ok x, s') => (.ok (g x), s')
      | (.error e, s') => (.error e, s') := by
  rw [← bind_pure_comp, runIn_bind]
  rfl

@[simp] theorem runIn_emitAll (es : List Event) :
    (emitAll es : Act ε Unit).runIn s = (.ok (), s.tell es) := rfl

@[simp] theorem runIn_emit (e : Event) : (emit e : Act ε Unit).runIn s = (.ok (), s.tell [e]) := rfl

/-- **A failure taken as a value.** -/
@[simp] theorem runIn_attempt (a : Act ε α) :
    (attempt a : Act δ (Except ε α)).runIn s = (.ok (a.runIn s).1, (a.runIn s).2) := rfl

/-- **A look at the tree** changes nothing. -/
theorem runIn_query (ask : Tree → Location → Except SystemError α) (failure : SystemError → ε) :
    (query ask failure).runIn s = ((ask s.tree s.cwd).mapError failure, s) := by
  rw [query, runIn_bind, runIn_get]
  dsimp only
  cases ask s.tree s.cwd <;> rfl

/-- **An operation on the tree** changes it and is told, or is refused and changes nothing. -/
theorem runIn_change (operation : Operation) (failure : SystemError → ε) :
    (change operation failure).runIn s =
      match s.tree.perform s.cwd operation with
      | .ok t => (.ok (), (s.withTree t).tell [.changed operation])
      | .error e => (.error (failure e), s) := by
  rw [change, runIn_bind, runIn_get]
  dsimp only
  cases s.tree.perform s.cwd operation <;> rfl

end Act

end SourceCoding
