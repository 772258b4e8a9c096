import LineExchange.Host

/-!
# LineExchange.Exchange

An owner at work on a host. A call on it changes both and ends with a result, a refusal, or not
at all (`Stop`). Inside the gate of the core a call runs as a critical section: `guarded` leaves
it again however the section ends.
-/

namespace LineExchange

/-- Why a call ends without a result. -/
inductive Stop where
  /-- It was refused with an error. -/
  | refused (e : ExchangeError)
  /-- It broke off. -/
  | fault (f : Fault)
  /-- It goes on past all that is followed. -/
  | endless
deriving DecidableEq

/-- An owner at work on a host. -/
structure Exchange (M : Type) where
  host : Host M
  owner : Owner

namespace Exchange

variable {M α σ : Type} [Memory M]

/-- A part of a call. It keeps what it did even if it stops. -/
abbrev Step (M : Type) := ExceptT Stop (StateM (Exchange M))

/-- The result of a part of a call and what became of the exchange. -/
def Step.run (a : Step M α) (x : Exchange M) : Except Stop α × Exchange M := (ExceptT.run a).run x

/-- An access as a part of a call. -/
def onHost (a : Access (Host M) α) : Step M α :=
  ExceptT.mk fun x =>
    let (r, host) := a.run x.host
    (r.mapError .fault, { x with host })

/-- An access to the memory as a part of a call. -/
def onMemory (a : Access M α) : Step M α := onHost (Host.onMemory a)

def refuse (e : ExchangeError) : Step M α := throw (.refused e)

def count (f : Stats → Stats) : Step M Unit :=
  modify fun x => { x with owner := { x.owner with stats := f x.owner.stats } }

/-- The line after this one comes next. -/
def toggle (d : Direction) : Step M Unit :=
  modify fun x => { x with owner := { x.owner with next := x.owner.next.toggle d } }

/-- Run a critical section that was entered, and leave it. -/
def guarded (body : Step M α) : Step M α :=
  ExceptT.mk fun x =>
    let (r, x) := Step.run body x
    let leave : Step M Unit := onHost (Host.onGate x.owner.core fun g => ((), g.leave))
    (r, (Step.run leave x).2)

/-- Enter the critical section of the owner's core. -/
def enter (p : SpinPolicy σ) (s : σ) (x : Exchange M) : Except Stop Unit × σ × Exchange M :=
  let core := x.owner.core
  let spin : Access (Host M) (SpinResult × σ) := Host.onGate core fun g =>
    let (r, s, g) := g.enter p s
    ((r, s), g)
  match Access.run spin x.host with
  | (.error f, host) => (.error (.fault f), s, { x with host })
  | (.ok (.entered, s), host) => (.ok (), s, { x with host })
  | (.ok (.stuck attempts, s), host) =>
    (.error (.refused (.handshakeStuck core attempts)), s, { x with host })
  | (.ok (.endless, s), host) => (.error .endless, s, { x with host })

/-- Enter, run the rest of the call, whose critical section is `guarded`. -/
def entering (p : SpinPolicy σ) (s : σ) (rest : Step M α) (x : Exchange M) :
    Except Stop α × σ × Exchange M :=
  match x.enter p s with
  | (.error e, s, x) => (.error e, s, x)
  | (.ok (), s, x) =>
    let (r, x) := Step.run rest x
    (r, s, x)

end Exchange
end LineExchange
