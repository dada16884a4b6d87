import DocSearch.Number.Numeral

/-!
# Listen addresses

A listen address is `host:port`. An empty host binds all interfaces; brackets around a host are taken
off.
-/

namespace DocSearch.Address

open Number Text

/-- Why a text is no listen address. -/
inductive ListenError where
  | malformed (address : String)
  | port (e : NumeralError)
deriving Repr, DecidableEq

/-- The error text. -/
def ListenError.message : ListenError → String
  | .malformed address => s!"invalid listen address {quoted address}, expected host:port"
  | .port e => e.message

/-- The host and the port of a listen address. -/
def parseListen (address : String) : Except ListenError (String × Int) :=
  match cutLast? ':' address.toList with
  | none => .error (.malformed address)
  | some (host, port) =>
    if port.isEmpty || !port.all isDigit then .error (.malformed address)
    else
      match readInt (String.ofList port) with
      | .error e => .error (.port e)
      | .ok n =>
        let bare := trimBy (fun c => c == '[' || c == ']') host
        .ok (if bare.isEmpty then "0.0.0.0" else String.ofList bare, n)

end DocSearch.Address
