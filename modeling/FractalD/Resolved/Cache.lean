import FractalD.Machine.Dns

namespace FractalD.Resolved.Cache

open FractalD.Machine.Dns

/-- Where a name ends. Only pointers that follow many labels are refused. -/
def skipName (packet : Packet) (offset jumps : Nat) : Option Nat :=
  match packet[offset]? with
  | none => none
  | some length =>
    if length &&& 0xc0 = 0xc0 then
      if packet[offset + 1]? = none ∨ jumps > 16 then none else some (offset + 2)
    else if length &&& 0xc0 ≠ 0 ∨ length > 63 then none
    else if length = 0 then some (offset + 1)
    else if _hinside : offset + 1 + length.toNat > packet.length then none
    else skipName packet (offset + 1 + length.toNat) (jumps + 1)
termination_by packet.length - offset

def validateQuery (query : Packet) : Option Nat :=
  if query.length < 12 ∨ u16 query 4 ≠ 1 then none
  else
    match skipName query 12 0 with
    | none => none
    | some questionEnd => if questionEnd + 4 > query.length then none else some (questionEnd + 4)

/-- Read past records, keeping the least time to live. -/
def readTtls (response : Packet) : Nat → Nat × Option Nat → Option (Nat × Option Nat)
  | 0, read => some read
  | count + 1, (offset, minimum) =>
    match skipName response offset 0 with
    | none => none
    | some offset =>
      if offset + 10 > response.length then none
      else
        let ttl := u32 response (offset + 4)
        let next := offset + 10 + u16 response (offset + 8)
        if next > response.length then none
        else readTtls response count (next, some (minimum.elim ttl (min · ttl)))

/-- The least time to live of the records after the question, in seconds. -/
def responseTtl (response : Packet) (questionEnd : Nat) : Option Nat :=
  if response.length < 12 ∨ questionEnd > response.length then none
  else
    match [u16 response 6, u16 response 8, u16 response 10].foldlM
      (fun read count => readTtls response count read) (questionEnd, none) with
    | none => none
    | some (_, minimum) => minimum

def withId (response query : Packet) : Packet :=
  if response.length ≥ 2 ∧ query.length ≥ 2 then
    (response.set 0 (query.getD 0 0)).set 1 (query.getD 1 0)
  else response

def errorResponse (query : Packet) (code : UInt8) : Packet :=
  if query.length < 12 then []
  else
    let (validQuery, questionEnd) :=
      match validateQuery query with
      | some questionEnd => (true, questionEnd)
      | none => (false, 12)
    let response := query.take (min questionEnd query.length)
    let response := response.set 2 ((response.getD 2 0 ||| 0x80) &&& 0xfb)
    let response := response.set 3 ((response.getD 3 0 &&& 0xf0) ||| (code &&& 0x0f))
    let response := response.set 4 0
    let response := response.set 5 (if validQuery then 1 else 0)
    (List.range 6).foldl (fun response i => response.set (6 + i) 0) response

structure CacheEntry where
  key : Packet
  response : Packet
  /-- In nanoseconds, as all times. -/
  expires : Nat
  deriving DecidableEq, Repr

inductive ResolverFault
  | none
  | drop
  | servfail
  | delay (milliseconds : Nat)
  deriving DecidableEq, Repr

variable {Addr : Type} [DecidableEq Addr]

structure Resolver (Addr : Type) where
  upstreams : List Addr
  maxCacheEntries : Nat
  cache : List CacheEntry
  fault : ResolverFault

/-- What comes back for a query that is sent to an upstream. -/
inductive Forwarded (Addr : Type)
  | failed
  | received (source : Addr) (response : Packet)
  deriving DecidableEq

def nanosPerSec : Nat := 10 ^ 9

/-- Drop the oldest entries while there are too many. -/
def evict (limit : Nat) : List CacheEntry → List CacheEntry
  | [] => []
  | entry :: cache => if cache.length + 1 > limit then evict limit cache else entry :: cache

namespace Resolver

variable (r : Resolver Addr)

/-- Keep a response for as long as its records live, and five minutes at most. -/
def store (query : Packet) (questionEnd now : Nat) (response : Packet) : Resolver Addr :=
  match responseTtl response questionEnd with
  | none => r
  | some ttl =>
    if ttl > 0 then
      { r with
        cache := evict r.maxCacheEntries
          (r.cache ++ [⟨query.drop 2, response, now + min ttl 300 * nanosPerSec⟩]) }
    else r

/-- Ask one upstream after the other. What is received from another address, or has another
identifier, is passed over. -/
def forward (query : Packet) (questionEnd now : Nat) :
    List Addr → List (Forwarded Addr) → Resolver Addr × Packet
  | [], _ => (r, errorResponse query 2)
  | _ :: _, [] => (r, errorResponse query 2)
  | _ :: upstreams, .failed :: forwards => forward query questionEnd now upstreams forwards
  | upstream :: upstreams, .received source response :: forwards =>
    if source ≠ upstream ∨ slice response 0 2 ≠ slice query 0 2 then
      forward query questionEnd now upstreams forwards
    else (r.store query questionEnd now response, response)

def cached (query : Packet) (now : Nat) : Option CacheEntry :=
  (r.cache.filter (·.expires > now)).find? (·.key = query.drop 2)

/-- Answer from the cache, or else ask the upstreams. -/
def lookUp (query : Packet) (questionEnd now : Nat) (forwards : List (Forwarded Addr)) :
    Resolver Addr × Packet :=
  let kept := { r with cache := r.cache.filter (·.expires > now) }
  match r.cached query now with
  | some entry => (kept, withId entry.response query)
  | none => kept.forward query questionEnd now r.upstreams forwards

/-- Answer a query at a time, where `forwards` is what comes back from the upstreams. -/
def resolve (query : Packet) (now : Nat) (forwards : List (Forwarded Addr)) : Resolver Addr × Packet :=
  match validateQuery query with
  | none => (r, errorResponse query 1)
  | some questionEnd =>
    match r.fault with
    | .drop => (r, [])
    | .servfail => (r, errorResponse query 2)
    | .none => r.lookUp query questionEnd now forwards
    | .delay _ => r.lookUp query questionEnd now forwards

end Resolver

/-- What the daemon handles: a query at a time, whose answer is stored some time later, and the
requests of the control socket that change the resolver. -/
inductive Event (Addr : Type)
  | query (query : Packet) (now elapsed : Nat) (forwards : List (Forwarded Addr))
  | flushCaches
  | setUpstreams (upstreams : List Addr)

/-- What the daemon makes of an event. -/
def handle (r : Resolver Addr) : Event Addr → Resolver Addr
  | .query query now _ forwards => (r.resolve query now forwards).1
  | .flushCaches => { r with cache := [] }
  | .setUpstreams upstreams =>
    if upstreams = [] then r else { r with upstreams := upstreams, cache := [] }

def serve (r : Resolver Addr) (events : List (Event Addr)) : Resolver Addr := events.foldl handle r

end FractalD.Resolved.Cache
