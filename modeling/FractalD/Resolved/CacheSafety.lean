import FractalD.Resolved.Cache
import Mathlib.Data.List.Basic

namespace FractalD.Resolved.CacheSafety

open FractalD.Machine.Dns FractalD.Resolved.Cache

theorem skipName_nameAt {packet : Packet} {offset jumps stop : Nat}
    (h : skipName packet offset jumps = some stop) : NameAt packet offset stop := by
  fun_induction skipName packet offset jumps with
  | case1 => cases h
  | case2 => cases h
  | case3 offset jumps length hlength hpointer hpointed =>
    cases h
    rw [not_or] at hpointed
    obtain ⟨second, hsecond⟩ := Option.ne_none_iff_exists'.mp hpointed.1
    exact .pointer hlength hpointer hsecond
  | case4 => cases h
  | case5 offset jumps hlength =>
    cases h
    exact .root hlength
  | case6 => cases h
  | case7 offset jumps length hlength hpointer hlong hne hinside ih =>
    rw [not_or, not_not] at hlong
    exact .label hlength hlong.1 hne (by omega) (ih h)

theorem validateQuery_some {query : Packet} {stop : Nat} (h : validateQuery query = some stop) :
    12 ≤ query.length ∧ 12 ≤ stop := by
  rw [validateQuery] at h
  split at h
  · cases h
  next hlength =>
    split at h
    · cases h
    next questionEnd hskip =>
      have hinside := (skipName_nameAt hskip).inside
      split at h
      · cases h
      · cases h
        omega

/-- Of what may be missing, something that is there and not more than a number. -/
def AtMost (m : Option Nat) (n : Nat) : Prop := ∃ t, m = some t ∧ t ≤ n

theorem atMost_elim {m : Option Nat} {ttl n : Nat} (h : AtMost m n ∨ ttl ≤ n) :
    AtMost (some (m.elim ttl (min · ttl))) n := by
  cases m with
  | none =>
    refine ⟨ttl, rfl, h.resolve_left ?_⟩
    rintro ⟨t, ht, -⟩
    cases ht
  | some s =>
    refine ⟨min s ttl, rfl, ?_⟩
    obtain ⟨t, ht, htn⟩ | h := h
    · cases ht
      omega
    · omega

/-- What is read past are records, and the minimum that is kept is one of them all. -/
theorem readTtls_some {response : Packet} {count o f : Nat} {m m' : Option Nat}
    (h : readTtls response count (o, m) = some (f, m')) :
    ∃ es, RecordsAt response o es f ∧ es.length = count ∧ (∀ n, AtMost m n → AtMost m' n) ∧
      ∀ e ∈ es, AtMost m' (u32 response (e + 4)) := by
  induction count generalizing o m with
  | zero =>
    cases h
    exact ⟨[], .nil _, rfl, fun n hn => hn, fun e he => absurd he List.not_mem_nil⟩
  | succ count ih =>
    rw [readTtls] at h
    split at h
    · cases h
    next e hskip =>
      split at h
      · cases h
      simp only at h
      split at h
      · cases h
      next hinside =>
        obtain ⟨es, hrecords, hcount, hkeep, hall⟩ := ih h
        refine ⟨e :: es, .cons ⟨skipName_nameAt hskip, rfl, by omega⟩ hrecords, by simp [hcount],
          fun n hn => hkeep n (atMost_elim (.inl hn)), ?_⟩
        intro d hd
        obtain rfl | hd := List.mem_cons.mp hd
        · exact hkeep _ (atMost_elim (.inr (Nat.le_refl _)))
        · exact hall d hd

/-- A response whose records follow the question of the query is kept no longer than any of them. -/
theorem responseTtl_le {response : Packet} {questionEnd ttl : Nat}
    (h : responseTtl response questionEnd = some ttl) :
    12 ≤ response.length ∧ ∃ es f, RecordsAt response questionEnd es f ∧
      es.length = u16 response 6 + u16 response 8 + u16 response 10 ∧
      ∀ e ∈ es, ttl ≤ u32 response (e + 4) := by
  rw [responseTtl] at h
  split at h
  · cases h
  next hlength =>
    split at h
    · cases h
    next f minimum hread =>
      subst h
      simp only [List.foldlM_cons, List.foldlM_nil, Option.bind_eq_bind, Option.bind_eq_some_iff,
        Option.pure_def, Option.some.injEq] at hread
      obtain ⟨⟨o₁, m₁⟩, hanswers, ⟨o₂, m₂⟩, hauthority, ⟨o₃, m₃⟩, hadditional, hend⟩ := hread
      cases hend
      obtain ⟨es₁, hrecords₁, hcount₁, -, hall₁⟩ := readTtls_some hanswers
      obtain ⟨es₂, hrecords₂, hcount₂, hkeep₂, hall₂⟩ := readTtls_some hauthority
      obtain ⟨es₃, hrecords₃, hcount₃, hkeep₃, hall₃⟩ := readTtls_some hadditional
      refine ⟨by omega, es₁ ++ (es₂ ++ es₃), f, hrecords₁.append (hrecords₂.append hrecords₃),
        by simp only [List.length_append, hcount₁, hcount₂, hcount₃, Nat.add_assoc], ?_⟩
      have hmost : ∀ e ∈ es₁ ++ (es₂ ++ es₃), AtMost (some ttl) (u32 response (e + 4)) := by
        intro e he
        simp only [List.mem_append] at he
        obtain he | he | he := he
        · exact hkeep₃ _ (hkeep₂ _ (hall₁ e he))
        · exact hkeep₃ _ (hall₂ e he)
        · exact hall₃ e he
      intro e he
      obtain ⟨t, ht, hle⟩ := hmost e he
      cases ht
      exact hle

/-- The question section of a response ends where the question of the query ends. -/
def Repeats (query response : Packet) : Prop :=
  ∀ o, QuestionsAt response (u16 response 4) 12 o → validateQuery query = some o

theorem lifetime_le {query response : Packet} {questionEnd ttl : Nat} (hrepeats : Repeats query response)
    (hquery : validateQuery query = some questionEnd) (h : responseTtl response questionEnd = some ttl)
    {ttls : List Nat} (httls : Lifetimes response ttls) : ∀ t ∈ ttls, ttl ≤ t := by
  obtain ⟨o, es, f, hquestions, hrecords, hcount, rfl⟩ := httls
  obtain rfl : questionEnd = o := Option.some.inj (hquery.symm.trans (hrepeats o hquestions))
  obtain ⟨-, es', f', hrecords', hcount', hall⟩ := responseTtl_le h
  obtain ⟨rfl, -⟩ := hrecords'.unique hrecords (hcount'.trans hcount.symm)
  intro t ht
  obtain ⟨e, he, rfl⟩ := List.mem_map.mp ht
  exact hall e he

/-- A reply carries the identifier of the query. -/
def SameId (query reply : Packet) : Prop := 2 ≤ reply.length ∧ reply.take 2 = query.take 2

theorem SameId.set {query reply : Packet} (h : SameId query reply) {i : Nat} (hi : 2 ≤ i) (b : UInt8) :
    SameId query (reply.set i b) := by
  obtain ⟨hlength, htake⟩ := h
  exact ⟨by rwa [List.length_set], by rw [List.take_set_of_le hi, htake]⟩

theorem SameId.clear {query : Packet} (places : List Nat) {reply : Packet} (h : SameId query reply) :
    SameId query (places.foldl (fun reply i => reply.set (6 + i) 0) reply) := by
  induction places generalizing reply with
  | nil => exact h
  | cons i places ih => exact ih (h.set (by omega) 0)

theorem sameId_take {query : Packet} (hlength : 12 ≤ query.length) {stop : Nat} (hstop : 12 ≤ stop) :
    SameId query (query.take (min stop query.length)) := by
  constructor
  · rw [List.length_take]
    omega
  · rw [List.take_take, Nat.min_eq_left (by omega)]

theorem errorResponse_id (query : Packet) (code : UInt8) :
    errorResponse query code = [] ∨ SameId query (errorResponse query code) := by
  rw [errorResponse]
  by_cases hlength : query.length < 12
  · exact .inl (if_pos hlength)
  · rw [if_neg hlength]
    right
    cases hquery : validateQuery query with
    | none =>
      apply SameId.clear
      repeat apply SameId.set _ (by decide)
      exact sameId_take (by omega) (Nat.le_refl 12)
    | some stop =>
      apply SameId.clear
      repeat apply SameId.set _ (by decide)
      exact sameId_take (by omega) (validateQuery_some hquery).2

theorem withId_id {query response : Packet} (hq : 2 ≤ query.length) (hr : 2 ≤ response.length) :
    SameId query (withId response query) := by
  rw [withId, if_pos ⟨hr, hq⟩]
  refine ⟨by simpa using hr, ?_⟩
  match query, response, hq, hr with
  | a :: b :: query, c :: d :: response, _, _ => rfl

theorem sameId_of_slice {query response : Packet} (hq : 2 ≤ query.length)
    (h : slice response 0 2 = slice query 0 2) : SameId query response := by
  simp only [slice, Nat.zero_le, true_and, hq, if_true, List.drop_zero, Nat.sub_zero] at h
  rw [Option.ite_none_right_eq_some] at h
  exact ⟨h.1, Option.some.inj h.2⟩

section

variable {Addr : Type}

/-- An event that filled an entry of the cache: a query whose bytes after the identifier are its
key, for which its response was received. -/
def FilledBy (entry : CacheEntry) : Event Addr → Prop
  | .query query now elapsed forwards => entry.key = query.drop 2 ∧
    (∃ source, .received source entry.response ∈ forwards) ∧
    entry.expires ≤ now + elapsed + 300 * nanosPerSec
  | _ => False

/-- Each response received for a query repeats its question. -/
def RepeatsIn : Event Addr → Prop
  | .query query _ _ forwards =>
    ∀ source response, .received source response ∈ forwards → Repeats query response
  | _ => True

def WithinRecords (entry : CacheEntry) : Event Addr → Prop
  | .query _ now elapsed _ => ∀ ttls, Lifetimes entry.response ttls →
    ∀ t ∈ ttls, entry.expires ≤ now + elapsed + t * nanosPerSec
  | _ => False

/-- What an entry of the cache comes from. -/
structure Accounted (past : List (Event Addr)) (entry : CacheEntry) : Prop where
  whole : 12 ≤ entry.response.length
  filler : ∃ e ∈ past, FilledBy entry e ∧ (RepeatsIn e → WithinRecords entry e)

structure Kept (past : List (Event Addr)) (r : Resolver Addr) : Prop where
  accounted : ∀ entry ∈ r.cache, Accounted past entry
  bounded : r.cache.length ≤ r.maxCacheEntries

theorem Accounted.later {past : List (Event Addr)} {entry : CacheEntry} (h : Accounted past entry)
    (e : Event Addr) : Accounted (past ++ [e]) entry := by
  obtain ⟨hwhole, f, hf, hfills⟩ := h
  exact ⟨hwhole, f, List.mem_append_left _ hf, hfills⟩

theorem mem_evict {limit : Nat} {cache : List CacheEntry} {entry : CacheEntry}
    (h : entry ∈ evict limit cache) : entry ∈ cache := by
  induction cache with
  | nil => exact h
  | cons first cache ih =>
    rw [evict] at h
    split at h
    · exact List.mem_cons_of_mem _ (ih h)
    · exact h

theorem length_evict (limit : Nat) (cache : List CacheEntry) : (evict limit cache).length ≤ limit := by
  induction cache with
  | nil => exact Nat.zero_le _
  | cons first cache ih =>
    rw [evict]
    split
    · exact ih
    · rw [List.length_cons]
      omega

variable {past : List (Event Addr)} {r : Resolver Addr}

theorem Kept.store {query response : Packet} {questionEnd now elapsed : Nat}
    {forwards : List (Forwarded Addr)} {source : Addr} (h : Kept past r)
    (hquery : validateQuery query = some questionEnd)
    (hreceived : .received source response ∈ forwards) :
    Kept (past ++ [.query query now elapsed forwards]) (r.store query questionEnd now response) := by
  have hlater : Kept (past ++ [.query query now elapsed forwards]) r :=
    ⟨fun entry he => (h.accounted entry he).later _, h.bounded⟩
  rw [Resolver.store]
  split
  · exact hlater
  next ttl httl =>
    split
    next hpos =>
      refine ⟨?_, length_evict _ _⟩
      intro entry he
      obtain he | he := List.mem_append.mp (mem_evict he)
      · exact hlater.accounted entry he
      · obtain rfl := List.mem_singleton.mp he
        refine ⟨(responseTtl_le httl).1, _, List.mem_append_right _ List.mem_cons_self,
          ⟨rfl, ⟨source, hreceived⟩, ?_⟩, ?_⟩
        · have hlimit := Nat.mul_le_mul_right nanosPerSec (Nat.min_le_right ttl 300)
          simp only
          omega
        · intro hrepeats ttls httls t ht
          have hle := lifetime_le (hrepeats source response hreceived) hquery httl httls t ht
          have hlimit := Nat.mul_le_mul_right nanosPerSec
            (Nat.le_trans (Nat.min_le_left ttl 300) hle)
          simp only
          omega
    · exact hlater

theorem Kept.retain (h : Kept past r) (now : Nat) :
    Kept past { r with cache := r.cache.filter (·.expires > now) } :=
  ⟨fun entry he => h.accounted entry (List.mem_of_mem_filter he),
    Nat.le_trans (List.length_filter_le ..) h.bounded⟩

theorem cached_some {query : Packet} {now : Nat} {entry : CacheEntry}
    (h : r.cached query now = some entry) :
    entry ∈ r.cache ∧ now < entry.expires ∧ entry.key = query.drop 2 := by
  obtain ⟨hmem, hfresh⟩ := List.mem_filter.mp (List.mem_of_find?_eq_some h)
  have hkey := List.find?_some h
  exact ⟨hmem, of_decide_eq_true hfresh, of_decide_eq_true hkey⟩

/-- Where a reply comes from. -/
def Origin (r : Resolver Addr) (query : Packet) (now : Nat) (forwards : List (Forwarded Addr))
    (reply : Packet) : Prop :=
  reply = [] ∨ (∃ code, reply = errorResponse query code) ∨
    (SameId query reply ∧ ∃ source, .received source reply ∈ forwards) ∨
    2 ≤ query.length ∧ ∃ entry, r.cached query now = some entry ∧ reply = withId entry.response query

theorem Kept.answer_id (h : Kept past r) {query : Packet} {now : Nat}
    {forwards : List (Forwarded Addr)} {reply : Packet} (hreply : Origin r query now forwards reply) :
    reply = [] ∨ SameId query reply := by
  obtain hnone | ⟨code, rfl⟩ | ⟨hid, -⟩ | ⟨hq, entry, hentry, rfl⟩ := hreply
  · exact .inl hnone
  · exact errorResponse_id query code
  · exact .inr hid
  · have hwhole := (h.accounted entry (cached_some hentry).1).whole
    exact .inr (withId_id hq (by omega))

variable [DecidableEq Addr]

theorem Kept.forward {query : Packet} {questionEnd now elapsed : Nat}
    {forwards all : List (Forwarded Addr)} (h : Kept past r)
    (hquery : validateQuery query = some questionEnd) (upstreams : List Addr)
    (hall : ∀ f ∈ forwards, f ∈ all) :
    Kept (past ++ [.query query now elapsed all])
      (r.forward query questionEnd now upstreams forwards).1 := by
  have hlater : Kept (past ++ [.query query now elapsed all]) r :=
    ⟨fun entry he => (h.accounted entry he).later _, h.bounded⟩
  induction upstreams generalizing forwards with
  | nil => rwa [Resolver.forward]
  | cons upstream upstreams ih =>
    match forwards with
    | [] => rwa [Resolver.forward]
    | .failed :: forwards =>
      rw [Resolver.forward]
      exact ih fun f hf => hall f (List.mem_cons_of_mem _ hf)
    | .received source response :: forwards =>
      rw [Resolver.forward]
      split
      · exact ih fun f hf => hall f (List.mem_cons_of_mem _ hf)
      · exact h.store hquery (hall _ List.mem_cons_self)

theorem Kept.lookUp {query : Packet} {questionEnd now elapsed : Nat} {forwards : List (Forwarded Addr)}
    (h : Kept past r) (hquery : validateQuery query = some questionEnd) :
    Kept (past ++ [.query query now elapsed forwards]) (r.lookUp query questionEnd now forwards).1 := by
  rw [Resolver.lookUp]
  split
  · exact ⟨fun entry he => ((h.retain now).accounted entry he).later _, (h.retain now).bounded⟩
  · exact (h.retain now).forward hquery _ fun f hf => hf

theorem Kept.resolve {query : Packet} {now elapsed : Nat} {forwards : List (Forwarded Addr)}
    (h : Kept past r) :
    Kept (past ++ [.query query now elapsed forwards]) (r.resolve query now forwards).1 := by
  have hlater : Kept (past ++ [.query query now elapsed forwards]) r :=
    ⟨fun entry he => (h.accounted entry he).later _, h.bounded⟩
  rw [Resolver.resolve]
  split
  · exact hlater
  next questionEnd hquery =>
    split
    · exact hlater
    · exact hlater
    · exact h.lookUp hquery
    · exact h.lookUp hquery

theorem Kept.handle (h : Kept past r) (e : Event Addr) : Kept (past ++ [e]) (handle r e) := by
  cases e with
  | query query now elapsed forwards => exact h.resolve
  | flushCaches => exact ⟨fun entry he => absurd he List.not_mem_nil, Nat.zero_le _⟩
  | setUpstreams upstreams =>
    rw [Cache.handle]
    split
    · exact ⟨fun entry he => (h.accounted entry he).later _, h.bounded⟩
    · exact ⟨fun entry he => absurd he List.not_mem_nil, Nat.zero_le _⟩

/-- Whatever the daemon has handled, its cache is accounted for. -/
theorem kept_serve (h : Kept past r) (events : List (Event Addr)) :
    Kept (past ++ events) (serve r events) := by
  induction events generalizing past r with
  | nil => rwa [List.append_nil]
  | cons e events ih =>
    rw [serve, List.foldl_cons, List.append_cons]
    exact ih (h.handle e)

theorem limit_forward {query : Packet} {questionEnd now : Nat} (upstreams : List Addr)
    (forwards : List (Forwarded Addr)) :
    (r.forward query questionEnd now upstreams forwards).1.maxCacheEntries = r.maxCacheEntries := by
  fun_induction Resolver.forward r query questionEnd now upstreams forwards with
  | case1 => rfl
  | case2 => rfl
  | case3 upstream upstreams forwards ih => exact ih
  | case4 upstream upstreams source response forwards hother ih => exact ih
  | case5 upstream upstreams source response forwards hsame =>
    rw [Resolver.store]
    split
    · rfl
    · split <;> rfl

theorem limit_handle (r : Resolver Addr) (e : Event Addr) :
    (handle r e).maxCacheEntries = r.maxCacheEntries := by
  cases e with
  | query query now elapsed forwards =>
    have hlookUp (questionEnd : Nat) :
        (r.lookUp query questionEnd now forwards).1.maxCacheEntries = r.maxCacheEntries := by
      rw [Resolver.lookUp]
      split
      · rfl
      · exact limit_forward _ _
    rw [Cache.handle, Resolver.resolve]
    split
    · rfl
    · split
      · rfl
      · rfl
      · exact hlookUp _
      · exact hlookUp _
  | flushCaches => rfl
  | setUpstreams upstreams =>
    rw [Cache.handle]
    split <;> rfl

theorem limit_serve (r : Resolver Addr) (events : List (Event Addr)) :
    (serve r events).maxCacheEntries = r.maxCacheEntries := by
  induction events generalizing r with
  | nil => rfl
  | cons e events ih =>
    rw [serve, List.foldl_cons]
    exact (ih (Cache.handle r e)).trans (limit_handle r e)

theorem forward_origin {query : Packet} {questionEnd now : Nat} (hq : 2 ≤ query.length)
    (upstreams : List Addr) (forwards : List (Forwarded Addr)) :
    let reply := (r.forward query questionEnd now upstreams forwards).2
    (∃ code, reply = errorResponse query code) ∨
      SameId query reply ∧ ∃ source, .received source reply ∈ forwards := by
  fun_induction Resolver.forward r query questionEnd now upstreams forwards with
  | case1 => exact .inl ⟨2, rfl⟩
  | case2 => exact .inl ⟨2, rfl⟩
  | case3 upstream upstreams forwards ih =>
    refine ih.imp_right fun ⟨hid, source, hmem⟩ => ⟨hid, source, List.mem_cons_of_mem _ hmem⟩
  | case4 upstream upstreams source response forwards hother ih =>
    refine ih.imp_right fun ⟨hid, source, hmem⟩ => ⟨hid, source, List.mem_cons_of_mem _ hmem⟩
  | case5 upstream upstreams source response forwards hsame =>
    rw [not_or, not_not, not_not] at hsame
    exact .inr ⟨sameId_of_slice hq hsame.2, source, List.mem_cons_self⟩

theorem lookUp_origin {query : Packet} {questionEnd now : Nat} (hq : 2 ≤ query.length)
    (forwards : List (Forwarded Addr)) :
    Origin r query now forwards (r.lookUp query questionEnd now forwards).2 := by
  rw [Resolver.lookUp]
  split
  next entry hentry => exact .inr (.inr (.inr ⟨hq, entry, hentry, rfl⟩))
  next hnone =>
    obtain herror | hreceived := forward_origin hq r.upstreams forwards
    · exact .inr (.inl herror)
    · exact .inr (.inr (.inl hreceived))

theorem resolve_origin (r : Resolver Addr) (query : Packet) (now : Nat)
    (forwards : List (Forwarded Addr)) :
    Origin r query now forwards (r.resolve query now forwards).2 := by
  rw [Resolver.resolve]
  split
  · exact .inr (.inl ⟨1, rfl⟩)
  next questionEnd hquery =>
    have hq := (validateQuery_some hquery).1
    split
    · exact .inl rfl
    · exact .inr (.inl ⟨2, rfl⟩)
    · exact lookUp_origin (by omega) forwards
    · exact lookUp_origin (by omega) forwards

/-- What a client is given, whatever the daemon has handled before. -/
structure SafeAnswer (past : List (Event Addr)) (limit : Nat) (r : Resolver Addr) (query : Packet)
    (now : Nat) (forwards : List (Forwarded Addr)) : Prop where
  id : (r.resolve query now forwards).2 = [] ∨ SameId query (r.resolve query now forwards).2
  origin : Origin r query now forwards (r.resolve query now forwards).2
  cached : ∀ entry, r.cached query now = some entry → entry.key = query.drop 2 ∧
    now < entry.expires ∧ ∃ e ∈ past, FilledBy entry e
  bounded : r.cache.length ≤ limit
  stillBounded : (r.resolve query now forwards).1.cache.length ≤ limit

/-- The daemon answers from its cache only what was asked for, and within five minutes. If the
upstreams repeat the questions, then also only while each record lives. -/
theorem answers_are_safe (upstreams : List Addr) (limit : Nat) (fault : ResolverFault)
    (past : List (Event Addr)) (query : Packet) (now : Nat) (forwards : List (Forwarded Addr)) :
    SafeAnswer past limit (serve ⟨upstreams, limit, [], fault⟩ past) query now forwards ∧
      ((∀ e ∈ past, RepeatsIn e) → ∀ entry,
        (serve ⟨upstreams, limit, [], fault⟩ past).cached query now = some entry →
        ∃ e ∈ past, FilledBy entry e ∧ WithinRecords entry e) := by
  have hkept : Kept past (serve ⟨upstreams, limit, [], fault⟩ past) := by
    have hstart : Kept [] (⟨upstreams, limit, [], fault⟩ : Resolver Addr) :=
      ⟨fun entry he => absurd he List.not_mem_nil, Nat.zero_le _⟩
    exact kept_serve hstart past
  have hlimit := limit_serve ⟨upstreams, limit, [], fault⟩ past
  generalize serve ⟨upstreams, limit, [], fault⟩ past = r at hkept hlimit
  have horigin := resolve_origin r query now forwards
  have hnext : Kept (past ++ [.query query now 0 forwards]) (r.resolve query now forwards).1 :=
    hkept.resolve
  have hnextLimit := limit_handle r (.query query now 0 forwards)
  refine ⟨⟨hkept.answer_id horigin, horigin, ?_,
    Nat.le_trans hkept.bounded (Nat.le_of_eq hlimit), ?_⟩, ?_⟩
  · intro entry hentry
    obtain ⟨hmem, hfresh, hkey⟩ := cached_some hentry
    obtain ⟨-, e, he, hfilled, -⟩ := hkept.accounted entry hmem
    exact ⟨hkey, hfresh, e, he, hfilled⟩
  · exact Nat.le_trans hnext.bounded (Nat.le_of_eq (hnextLimit.trans hlimit))
  · intro hrepeats entry hentry
    obtain ⟨-, e, he, hfilled, hwithin⟩ := hkept.accounted entry (cached_some hentry).1
    exact ⟨e, he, hfilled, hwithin (hrepeats e he)⟩

end

/-- A query for the address of `a`. -/
def addressQuery (id : UInt8) : Packet :=
  [0, id, 1, 0, 0, 1, 0, 0, 0, 0, 0, 0, 1, 97, 0, 0, 1, 0, 1]

/-- A response without a question. Its record lives for a second, and the bytes of its data would
be a record of a day. -/
def unquestionedResponse : Packet :=
  [0, 1, 0x81, 0x80, 0, 0, 0, 1, 0, 0, 0, 0, 0, 0, 1, 0, 1, 0, 0, 0, 1, 0, 7, 0, 0, 1, 0x51, 0x80, 0, 0]

def unquestionedRun : List (Event Unit) :=
  [.query (addressQuery 1) 0 0 [.received () unquestionedResponse]]

/-- After ten seconds the record that lived for one is still answered. -/
theorem unquestioned_outlives :
    Lifetimes unquestionedResponse [1] ∧
      (serve ⟨[()], 512, [], .none⟩ unquestionedRun).cached (addressQuery 2) (10 * nanosPerSec) =
        some ⟨(addressQuery 2).drop 2, unquestionedResponse, 300 * nanosPerSec⟩ ∧
      ((serve ⟨[()], 512, [], .none⟩ unquestionedRun).resolve (addressQuery 2) (10 * nanosPerSec)
        [.failed]).2 = withId unquestionedResponse (addressQuery 2) := by
  refine ⟨⟨12, [13], 30, .nil 12, ?_, by decide, by decide⟩, by decide +kernel, by decide +kernel⟩
  exact .cons ⟨.root rfl, by decide, by decide⟩ (.nil 30)

end FractalD.Resolved.CacheSafety
