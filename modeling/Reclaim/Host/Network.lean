import Reclaim.Host.Session

/-!
# Hosts

`Network` is all the library knows of the hosts: with which of them there is a contract, and what
they answer to the three requests of a session.  Nothing is assumed of the answers: they may depend
on everything asked before, come late, or never come.

`Wire` is a network together with the record of what was asked of it and what was done about it.
-/

namespace Reclaim

structure Contract where
  id : Hash256
  host : HostKey
  expirationHeight : UInt64
deriving DecidableEq, Inhabited

/-- an answer and the milliseconds it takes to come, if it ever does -/
structure Reply (α : Type) where
  delay : Option Nat
  result : Except SessionError α

def Reply.now {α : Type} (r : Except SessionError α) : Reply α := ⟨some 0, r⟩

def Reply.never {α : Type} : Reply α := ⟨none, .error (.transport "")⟩

/-- the hosts as seen from here, with a state of their own -/
structure Network (σ : Type) where
  /-- the hosts with a contract -/
  hosts : σ → List HostKey
  contract? : σ → HostKey → Option Contract
  dial : HostKey → σ → Reply Unit × σ
  settings : HostKey → σ → Reply HostSettings × σ
  /-- read sections for at most the given amount -/
  read : HostKey → List ReadSection → Nat → σ → Reply Bytes × σ
  /-- forget the contract with a host; tells whether that worked -/
  removeContract : HostKey → σ → Bool × σ

/-- what was asked of hosts and what was done about their answers -/
inductive Event where
  /-- a session was asked for, in order to get a sector -/
  | dialed (host : HostKey) (root : Hash256)
  | settingsAsked (host : HostKey)
  | readAsked (host : HostKey) (part : ReadSection) (cost : Nat)
  /-- a payload came in time -/
  | received (host : HostKey) (payload : Bytes)
  /-- an exchange failed, and that was taken notice of -/
  | failed (host : HostKey) (root : Hash256) (e : SectorError)
  /-- a search of all hosts was begun -/
  | raced (root : Hash256)
  /-- a contract was given up -/
  | removed (host : HostKey) (worked : Bool)
deriving DecidableEq

/-- the hosts and the record of events, the latest first -/
structure Wire (σ : Type) where
  net : σ
  trace : List Event

namespace Wire

variable {σ : Type}

def fresh (net : σ) : Wire σ := ⟨net, []⟩

def note (w : Wire σ) (e : Event) : Wire σ := ⟨w.net, e :: w.trace⟩

/-- the events in the order in which they happened -/
def events (w : Wire σ) : List Event := w.trace.reverse

def dial (n : Network σ) (host : HostKey) (root : Hash256) (w : Wire σ) : Reply Unit × Wire σ :=
  let r := n.dial host w.net
  (r.1, ⟨r.2, .dialed host root :: w.trace⟩)

def settings (n : Network σ) (host : HostKey) (w : Wire σ) : Reply HostSettings × Wire σ :=
  let r := n.settings host w.net
  (r.1, ⟨r.2, .settingsAsked host :: w.trace⟩)

def read (n : Network σ) (host : HostKey) (part : ReadSection) (cost : Nat) (w : Wire σ) :
    Reply Bytes × Wire σ :=
  let r := n.read host [part] cost w.net
  (r.1, ⟨r.2, .readAsked host part cost :: w.trace⟩)

/-- take the answer to a read; a payload goes on record -/
def take (host : HostKey) (r : Except SectorError Bytes) (w : Wire σ) : Wire σ :=
  match r with
  | .ok b => w.note (.received host b)
  | .error _ => w

/-- give up the contract with a host that no longer knows it; tells whether there was one -/
def prune (n : Network σ) (host : HostKey) (w : Wire σ) : Bool × Wire σ :=
  match n.contract? w.net host with
  | none => (false, w)
  | some _ =>
    let r := n.removeContract host w.net
    (true, ⟨r.2, .removed host r.1 :: w.trace⟩)

end Wire

end Reclaim
