import DocSearch.Cancel
import DocSearch.RunError

/-!
# How a trip spreads

A token keeps the children that it still has to tell. When it is tripped it lets go of them and trips
them one after the other with its own reason, and they do the same; a token that is tripped already
stays as it is and tells nobody. A child of a tripped token is tripped at once and kept by nobody.

`TokenForest` says in one step what comes of this.
-/

namespace DocSearch

/-- A token with the children that it still has to tell. -/
structure TokenNode where
  trip : Trip
  children : List TokenId
deriving Repr, DecidableEq

/-- Tokens in the order of their creation. -/
structure TokenGraph where
  nodes : List TokenNode
deriving Repr, DecidableEq

namespace TokenGraph

/-- The graph without tokens. -/
def empty : TokenGraph := ⟨[]⟩

/-- The state of a token; one that does not exist is not tripped. -/
def trip? (g : TokenGraph) (t : TokenId) : Trip := (g.nodes[t]?).bind (·.trip)

/-- The children that a token still has to tell. -/
def children (g : TokenGraph) (t : TokenId) : List TokenId :=
  ((g.nodes[t]?).map (·.children)).getD []

/-- Whether a token is there and not tripped. -/
def isLive (g : TokenGraph) (t : TokenId) : Bool := (g.nodes[t]?).any (·.trip.isNone)

/-- The number of tokens that are not tripped. -/
def liveCount (g : TokenGraph) : Nat := g.nodes.countP (·.trip.isNone)

/-- Trips one token and lets go of its children. -/
def trip (g : TokenGraph) (t : TokenId) (reason : Option String) : TokenGraph :=
  ⟨g.nodes.modify t fun k => ⟨Trip.cancel reason k.trip, []⟩⟩

theorem isSome_cancel (reason : Option String) (trip : Trip) :
    (Trip.cancel reason trip).isSome = true := by
  fun_cases Trip.cancel reason trip <;> rfl

theorem countP_modify_lt {α : Type} {p : α → Bool} {f : α → α} (hf : ∀ a, p (f a) = false)
    {xs : List α} {i : Nat} (h : xs[i]?.any p = true) : (xs.modify i f).countP p < xs.countP p := by
  induction xs generalizing i with
  | nil => simp at h
  | cons x xs ih =>
    cases i with
    | zero =>
      have hx : p x = true := by simpa using h
      simp [hf, hx]
    | succ i =>
      have hxs := ih (i := i) (by simpa using h)
      simp only [List.modify_succ_cons, List.countP_cons]
      omega

theorem liveCount_trip_lt {g : TokenGraph} {t : TokenId} (h : g.isLive t = true)
    (reason : Option String) : (g.trip t reason).liveCount < g.liveCount := by
  refine countP_modify_lt (fun k => ?_) h
  rw [← Option.not_isSome, isSome_cancel, Bool.not_true]

/-- Trips tokens one after the other, each together with the tokens below it. Every token is tripped
once at most, so there are fewer to trip each time. -/
def cancelAll (g : TokenGraph) (reason : Option String) :
    List TokenId → { g' : TokenGraph // g'.liveCount ≤ g.liveCount }
  | [] => ⟨g, Nat.le_refl _⟩
  | t :: ts =>
    if h : g.isLive t = true then
      let tripped := g.trip t reason
      have hfewer : tripped.liveCount < g.liveCount := liveCount_trip_lt h reason
      let below := tripped.cancelAll (tripped.trip? t) (g.children t)
      have hbelow := below.property
      let others := below.val.cancelAll reason ts
      have hothers := others.property
      ⟨others.val, Nat.le_trans hothers (Nat.le_trans hbelow (Nat.le_of_lt hfewer))⟩
    else g.cancelAll reason ts
termination_by ts => (g.liveCount, ts.length)
decreasing_by
  · exact Prod.Lex.left _ _ hfewer
  · exact Prod.Lex.left _ _ (Nat.lt_of_le_of_lt hbelow hfewer)
  · exact Prod.Lex.right _ (Nat.lt_succ_self _)

/-- Trips a token and every token below it, unless it is tripped already. -/
def cancel (g : TokenGraph) (t : TokenId) (reason : Option String) : TokenGraph :=
  (g.cancelAll reason [t]).val

/-- Adds a token that depends on no other. -/
def fresh (g : TokenGraph) : TokenGraph × TokenId := (⟨g.nodes ++ [⟨none, []⟩]⟩, g.nodes.length)

/-- Adds a child of `t`: `t` keeps it, or it is tripped at once if `t` is tripped. -/
def child (g : TokenGraph) (t : TokenId) : TokenGraph × TokenId :=
  let (added, new) := g.fresh
  match g.trip? t with
  | none => (⟨added.nodes.modify t fun k => { k with children := k.children ++ [new] }⟩, new)
  | some reason => (added.cancel new (some reason), new)

/-- Whether a token is tripped. -/
def isCancelled (g : TokenGraph) (t : TokenId) : Bool := (g.trip? t).isSome

/-- What an action does at a token before it goes on: it fails if the token is tripped. -/
def check (g : TokenGraph) (t : TokenId) : Except RunError Unit :=
  match g.trip? t with
  | some reason => .error (.cancelled reason)
  | none => .ok ()

end TokenGraph

end DocSearch
