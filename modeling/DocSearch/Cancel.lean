/-!
# Cancellation

A token is a one-shot flag with a reason. Tokens form a forest: a token made as the child of another
trips whenever that one does, but can also be tripped on its own. The first trip counts; a later one
changes nothing.
-/

namespace DocSearch

/-- The reason of a trip for which none was given. -/
def defaultReason : String := "operation cancelled"

/-- The state of one token: the reason of its trip, once it is tripped. -/
abbrev Trip := Option String

namespace Trip

/-- Trips a token. An empty reason counts as none. -/
def cancel (reason : Option String) : Trip → Trip
  | some r => some r
  | none =>
    match reason with
    | some "" => some defaultReason
    | some r => some r
    | none => some defaultReason

end Trip

/-! ## Forests -/

/-- A token of a forest, by the order of creation. -/
abbrev TokenId := Nat

/-- One token: its ancestors, itself included, and whether it is tripped. -/
structure Token where
  lineage : List TokenId
  trip : Trip
deriving Repr, DecidableEq

/-- Tokens in the order of their creation. -/
structure TokenForest where
  tokens : List Token
deriving Repr, DecidableEq

namespace TokenForest

/-- The forest without tokens. -/
def empty : TokenForest := ⟨[]⟩

/-- The state of a token; one that does not exist is not tripped. -/
def trip? (f : TokenForest) (t : TokenId) : Trip := (f.tokens[t]?).bind (·.trip)

/-- Adds a token that depends on no other. -/
def fresh (f : TokenForest) : TokenForest × TokenId :=
  (⟨f.tokens ++ [⟨[f.tokens.length], none⟩]⟩, f.tokens.length)

/-- Adds a child of `t`; a child of a tripped token is tripped from the start. -/
def child (f : TokenForest) (t : TokenId) : TokenForest × TokenId :=
  let lineage := ((f.tokens[t]?).map (·.lineage)).getD []
  (⟨f.tokens ++ [⟨f.tokens.length :: lineage, f.trip? t⟩]⟩, f.tokens.length)

/-- Trips `t` and every token below it that is not tripped yet, unless `t` is tripped already. -/
def cancel (f : TokenForest) (t : TokenId) (reason : Option String) : TokenForest :=
  match f.trip? t with
  | some _ => f
  | none =>
    let trip := Trip.cancel reason none
    ⟨f.tokens.map fun k =>
      if k.lineage.contains t && k.trip.isNone then { k with trip := trip } else k⟩

/-- Whether a token is tripped. -/
def isCancelled (f : TokenForest) (t : TokenId) : Bool := (f.trip? t).isSome

end TokenForest

end DocSearch
