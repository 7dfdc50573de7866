import FractalD.Config.Words
import FractalD.Machine.IpRoundTrip
import FractalD.Machine.Paths
import FractalD.Machine.Result
import FractalD.Machine.Utf8

namespace FractalD.Resolved.Endpoint

open FractalD.Config.Words (splitOnce splitOnce_append)
open FractalD.Machine.CString FractalD.Machine.IpText FractalD.Machine.Paths FractalD.Machine.Result
open FractalD.Machine.Text FractalD.Machine.Utf8 FractalD.Machine.Wire

def discoveryVersion : UInt32 := 1

structure DiscoveryRecord where
  version : UInt32
  pid : UInt32
  listen : SocketAddr
  /-- The bytes of a path. -/
  control : List UInt8
  upstreams : List SocketAddr
  cacheEntries : UInt64
  cacheLimit : UInt64
  deriving DecidableEq

/-- `str::from_utf8`, and `Path::to_str`. -/
def decodeUtf8 (bytes : List UInt8) : Option Str :=
  (ByteArray.mk bytes.toArray).utf8Decode?.map Array.toList

def line (key : String) (value : Str) : Str := key.toList ++ '=' :: value

def DiscoveryRecord.lines (record : DiscoveryRecord) (control : Str) : List Str :=
  [line "version" (printUnsigned record.version.toNat), line "pid" (printUnsigned record.pid.toNat),
    line "listen" record.listen.print, line "control" control,
    line "cache_entries" (printUnsigned record.cacheEntries.toNat),
    line "cache_limit" (printUnsigned record.cacheLimit.toNat)] ++
      record.upstreams.map fun upstream => line "upstream" upstream.print

/-- The record as it is published. Each error is of the kind of an invalid input. -/
def DiscoveryRecord.encode (record : DiscoveryRecord) : Except Str (List UInt8) := do
  if record.version ≠ discoveryVersion then
    throw "unsupported resolver discovery version".toList
  match decodeUtf8 record.control with
  | none => throw "resolver control path is not valid UTF-8".toList
  | some control =>
    if '\n' ∈ control ∨ '\r' ∈ control ∨ '=' ∈ control then
      throw "resolver control path contains a discovery delimiter".toList
    pure (asBytes ((record.lines control).flatMap (· ++ ['\n'])))

/-- Why a text is not read as an unsigned number. -/
inductive IntErrorKind
  | empty
  | invalidDigit
  | posOverflow
  deriving DecidableEq

def IntErrorKind.message : IntErrorKind → String
  | .empty => "cannot parse integer from empty string"
  | .invalidDigit => "invalid digit found in string"
  | .posOverflow => "number too large to fit in target type"

def parseDigits (bits : Nat) : Nat → Str → Except IntErrorKind Nat
  | value, [] => pure value
  | value, c :: s =>
    match toDigit 10 c with
    | none => throw .invalidDigit
    | some digit =>
      if value * 10 + digit < 2 ^ bits then parseDigits bits (value * 10 + digit) s
      else throw .posOverflow

/-- `str::parse` for an unsigned number of so many bits. -/
def parseInteger (bits : Nat) (s : Str) : Except IntErrorKind Nat :=
  if s = [] then throw .empty
  else if s = ['+'] then throw .invalidDigit
  else parseDigits bits 0 (if s.head? = some '+' then s.tail else s)

/-- Why a record is refused. Where the bytes are no text, the error goes on to say why. -/
inductive ParseError
  | notUtf8
  | invalidLine (line : Str)
  | value (field : String) (kind : IntErrorKind)
  | listen
  | upstream
  | version
  | noControl
  | emptyControl
  | noPid
  | noListen
  deriving DecidableEq

def ParseError.message : ParseError → Str
  | .notUtf8 => "resolver discovery is not UTF-8: ".toList
  | .invalidLine line => "invalid resolver discovery line: ".toList ++ line
  | .value field kind => "invalid resolver discovery ".toList ++ field.toList ++ ": ".toList ++
      kind.message.toList
  | .listen => "invalid resolver listen address: invalid socket address syntax".toList
  | .upstream => "invalid resolver upstream address: invalid socket address syntax".toList
  | .version => "unsupported or missing resolver discovery version".toList
  | .noControl => "resolver discovery has no control path".toList
  | .emptyControl => "resolver discovery has an empty control path".toList
  | .noPid => "resolver discovery has no PID".toList
  | .noListen => "resolver discovery has no listen address".toList

def parseValue (bits : Nat) (value : Str) (field : String) : Except ParseError Nat :=
  (parseInteger bits value).mapError (.value field)

def parseAddress (error : ParseError) (value : Str) : Except ParseError SocketAddr :=
  match SocketAddr.parse value with
  | some address => pure address
  | none => throw error

/-- What the lines of a record have said so far. -/
structure Draft where
  version : Option UInt32 := none
  pid : Option UInt32 := none
  listen : Option SocketAddr := none
  control : Option (List UInt8) := none
  upstreams : List SocketAddr := []
  cacheEntries : UInt64 := 0
  cacheLimit : UInt64 := 0

def Draft.readField (draft : Draft) (key value : Str) : Except ParseError Draft := do
  if key = "version".toList then
    pure { draft with version := some (UInt32.ofNat (← parseValue 32 value "version")) }
  else if key = "pid".toList then
    pure { draft with pid := some (UInt32.ofNat (← parseValue 32 value "pid")) }
  else if key = "listen".toList then
    pure { draft with listen := some (← parseAddress .listen value) }
  else if key = "control".toList then pure { draft with control := some (asBytes value) }
  else if key = "upstream".toList then
    pure { draft with upstreams := draft.upstreams ++ [← parseAddress .upstream value] }
  else if key = "cache_entries".toList then
    pure { draft with cacheEntries := UInt64.ofNat (← parseValue 64 value "cache_entries") }
  else if key = "cache_limit".toList then
    pure { draft with cacheLimit := UInt64.ofNat (← parseValue 64 value "cache_limit") }
  else pure draft

def Draft.readLine (draft : Draft) (line : Str) : Except ParseError Draft :=
  let line := trim line
  if line = [] then pure draft
  else
    match splitOnce '=' line with
    | none => throw (.invalidLine line)
    | some (key, value) => draft.readField key value

def Draft.finish (draft : Draft) : Except ParseError DiscoveryRecord := do
  if draft.version ≠ some discoveryVersion then throw .version
  match draft.control with
  | none => throw .noControl
  | some control =>
    if control = [] then throw .emptyControl
    match draft.pid with
    | none => throw .noPid
    | some pid =>
      match draft.listen with
      | none => throw .noListen
      | some listen =>
        pure ⟨discoveryVersion, pid, listen, control, draft.upstreams, draft.cacheEntries,
          draft.cacheLimit⟩

def DiscoveryRecord.parse (contents : List UInt8) : Except ParseError DiscoveryRecord :=
  match decodeUtf8 contents with
  | none => throw .notUtf8
  | some contents => (textLines contents).foldlM Draft.readLine {} >>= Draft.finish

section

variable {bits value n : Nat} {key s : Str} {draft : Draft}

theorem le_digits (digits : List Nat) (value : Nat) :
    value ≤ digits.foldl (fun value d => value * 10 + d) value := by
  induction digits generalizing value with
  | nil => exact Nat.le_refl _
  | cons d digits ih => exact Nat.le_trans (by omega) (ih (value * 10 + d))

theorem parseDigits_ok (hs : ∀ c ∈ s, (toDigit 10 c).isSome)
    (h : (s.filterMap (toDigit 10)).foldl (fun value d => value * 10 + d) value < 2 ^ bits) :
    parseDigits bits value s =
      .ok ((s.filterMap (toDigit 10)).foldl (fun value d => value * 10 + d) value) := by
  induction s generalizing value with
  | nil => rfl
  | cons c s ih =>
    obtain ⟨digit, hdigit⟩ := Option.isSome_iff_exists.mp (hs c List.mem_cons_self)
    rw [List.filterMap_cons_some hdigit, List.foldl_cons] at h ⊢
    rw [parseDigits, hdigit]
    dsimp only
    rw [if_pos (Nat.lt_of_le_of_lt (le_digits _ _) h)]
    exact ih (fun c hc => hs c (List.mem_cons_of_mem _ hc)) h

theorem parseInteger_printUnsigned (hn : n < 2 ^ bits) :
    parseInteger bits (printUnsigned n) = .ok n := by
  obtain ⟨hall, hvalue⟩ := digits_toDigits (show 1 < 10 by decide) (by decide) n
  have hplus : '+' ∉ printUnsigned n := fun h => absurd (hall _ h) (by decide)
  have hhead : (printUnsigned n).head? ≠ some '+' := fun h => hplus (List.mem_of_mem_head? h)
  have hsingle : printUnsigned n ≠ ['+'] := fun h => hplus (h ▸ List.mem_singleton_self _)
  rw [parseInteger, if_neg (printUnsigned_ne_nil n), if_neg hsingle, if_neg hhead]
  exact (parseDigits_ok hall (lt_of_eq_of_lt hvalue hn)).trans (congrArg Except.ok hvalue)

theorem trim_line (hkey : ∀ c ∈ key.head?, isWhitespace c = false) (hne : key ≠ []) (value : Str) :
    trim (key ++ '=' :: value) = key ++ '=' :: trimEnd isWhitespace value := by
  obtain ⟨w, hvalue, hw, hlast⟩ := trimEnd_append isWhitespace value
  have hends : ∀ c ∈ (key ++ '=' :: trimEnd isWhitespace value).getLast?, isWhitespace c = false := by
    intro c hc
    cases ht : trimEnd isWhitespace value with
    | nil =>
      rw [ht, List.getLast?_concat] at hc
      rw [← Option.some.inj hc]
      rfl
    | cons a t =>
      rw [ht] at hc hlast
      rw [List.getLast?_append_of_ne_nil _ (List.cons_ne_nil _ _), List.getLast?_cons_cons] at hc
      exact hlast c hc
  cases key with
  | nil => exact absurd rfl hne
  | cons a key =>
    have ha : isWhitespace a = false := hkey a rfl
    rw [trim, List.cons_append, List.dropWhile_cons_of_neg (by simp [ha])]
    conv => lhs; rw [hvalue]
    exact trimEnd_append_self (s := a :: key ++ '=' :: trimEnd isWhitespace value) hends hw |>
      (by simpa using ·)

end

def keys : List String :=
  ["version", "pid", "listen", "control", "upstream", "cache_entries", "cache_limit"]

section

variable {key : String} {draft : Draft}

theorem readLine_line (hkey : key ∈ keys) (value : Str) :
    draft.readLine (line key value) = draft.readField key.toList (trimEnd isWhitespace value) := by
  have hplain : ∀ key ∈ keys, key.toList ≠ [] ∧ '=' ∉ key.toList ∧
      (key.toList.head?.all fun c => !isWhitespace c) = true := by decide
  obtain ⟨hne, hequals, hhead⟩ := hplain key hkey
  have hhead' : ∀ c ∈ key.toList.head?, isWhitespace c = false := by
    intro c hc
    rw [Option.mem_def.mp hc] at hhead
    simpa using hhead
  rw [Draft.readLine, line, trim_line hhead' hne, if_neg (by simp), splitOnce_append hequals]

end

section

variable {draft : Draft}

theorem trimEnd_solid {s : Str} (h : Solid s) : trimEnd isWhitespace s = s :=
  trimEnd_self fun c hc => h c (List.mem_of_getLast? hc)

theorem readLine_version (n : UInt32) :
    draft.readLine (line "version" (printUnsigned n.toNat)) = .ok { draft with version := some n } := by
  rw [readLine_line (by decide), trimEnd_solid (solid_printUnsigned _), Draft.readField, if_pos rfl,
    parseValue, parseInteger_printUnsigned n.toNat_lt]
  exact congrArg (fun n => Except.ok { draft with version := some n }) UInt32.ofNat_toNat

theorem readLine_pid (n : UInt32) :
    draft.readLine (line "pid" (printUnsigned n.toNat)) = .ok { draft with pid := some n } := by
  rw [readLine_line (by decide), trimEnd_solid (solid_printUnsigned _), Draft.readField,
    if_neg (by decide), if_pos rfl, parseValue, parseInteger_printUnsigned n.toNat_lt]
  exact congrArg (fun n => Except.ok { draft with pid := some n }) UInt32.ofNat_toNat

theorem readLine_cacheEntries (n : UInt64) :
    draft.readLine (line "cache_entries" (printUnsigned n.toNat)) =
      .ok { draft with cacheEntries := n } := by
  rw [readLine_line (by decide), trimEnd_solid (solid_printUnsigned _), Draft.readField]
  repeat rw [if_neg (by decide)]
  rw [if_pos rfl, parseValue, parseInteger_printUnsigned n.toNat_lt]
  exact congrArg (fun n => Except.ok { draft with cacheEntries := n }) UInt64.ofNat_toNat

theorem readLine_cacheLimit (n : UInt64) :
    draft.readLine (line "cache_limit" (printUnsigned n.toNat)) = .ok { draft with cacheLimit := n } := by
  rw [readLine_line (by decide), trimEnd_solid (solid_printUnsigned _), Draft.readField]
  repeat rw [if_neg (by decide)]
  rw [if_pos rfl, parseValue, parseInteger_printUnsigned n.toNat_lt]
  exact congrArg (fun n => Except.ok { draft with cacheLimit := n }) UInt64.ofNat_toNat

theorem readLine_listen (address : SocketAddr) :
    draft.readLine (line "listen" address.print) =
      .ok { draft with listen := some address.written } := by
  rw [readLine_line (by decide), trimEnd_solid (solid_printAddress _), Draft.readField,
    if_neg (by decide), if_neg (by decide), if_pos rfl, parseAddress, parse_print]
  rfl

theorem readLine_control (control : Str) :
    draft.readLine (line "control" control) =
      .ok { draft with control := some (asBytes (trimEnd isWhitespace control)) } := by
  rw [readLine_line (by decide), Draft.readField]
  repeat rw [if_neg (by decide)]
  rw [if_pos rfl]
  rfl

theorem readLine_upstream (address : SocketAddr) :
    draft.readLine (line "upstream" address.print) =
      .ok { draft with upstreams := draft.upstreams ++ [address.written] } := by
  rw [readLine_line (by decide), trimEnd_solid (solid_printAddress _), Draft.readField]
  repeat rw [if_neg (by decide)]
  rw [if_pos rfl, parseAddress, parse_print]
  rfl

theorem readLine_upstreams (upstreams : List SocketAddr) :
    (upstreams.map fun upstream => line "upstream" upstream.print).foldlM Draft.readLine draft =
      .ok { draft with upstreams := draft.upstreams ++ upstreams.map SocketAddr.written } := by
  induction upstreams generalizing draft with
  | nil => rw [List.map_nil, List.map_nil, List.append_nil]; rfl
  | cons upstream upstreams ih =>
    rw [List.map_cons, List.foldlM_cons, readLine_upstream]
    refine ih.trans ?_
    rw [List.append_assoc]
    rfl

end

section

variable {record : DiscoveryRecord} {control : Str} {bytes : List UInt8}

theorem decodeUtf8_asBytes (s : Str) : decodeUtf8 (asBytes s) = some s := by
  rw [decodeUtf8, asBytes, toList_utf8Decode, Option.map_some]

theorem asBytes_of_decodeUtf8 (h : decodeUtf8 bytes = some control) : bytes = asBytes control := by
  obtain ⟨chars, hchars, rfl⟩ := Option.map_eq_some_iff.mp h
  exact utf8_of_utf8Decode hchars

/-- What `encode` writes, and of which records. -/
theorem encode_ok (h : record.encode = .ok bytes) :
    record.version = discoveryVersion ∧ ∃ control, decodeUtf8 record.control = some control ∧
      ('\n' ∉ control ∧ '\r' ∉ control) ∧
        bytes = asBytes ((record.lines control).flatMap (· ++ ['\n'])) := by
  obtain ⟨hversion, h⟩ := check_eq_ok.mp h
  refine ⟨not_not.mp hversion, ?_⟩
  cases hcontrol : decodeUtf8 record.control with
  | none => rw [hcontrol] at h; exact (throw_ne_ok.mp h).elim
  | some control =>
    rw [hcontrol] at h
    obtain ⟨hplain, h⟩ := check_eq_ok.mp h
    exact ⟨control, rfl, ⟨fun hn => hplain (.inl hn), fun hr => hplain (.inr (.inl hr))⟩,
      (pure_eq_ok.mp h).symm⟩

theorem oneLine_line {key : String} {value : Str} (hkey : key ∈ keys) (hnewline : '\n' ∉ value)
    (hreturn : '\r' ∉ value) : OneLine (line key value) := by
  have hplain : ∀ key ∈ keys, '\n' ∉ key.toList ∧ '\r' ∉ key.toList := by decide
  obtain ⟨hn, hr⟩ := hplain key hkey
  refine ⟨by simp [line, hn, hnewline], fun hlast => ?_⟩
  have hmem := List.mem_of_getLast? hlast
  simp [line, hr, hreturn] at hmem

theorem oneLine_solid {key : String} {value : Str} (hkey : key ∈ keys) (h : Solid value) :
    OneLine (line key value) :=
  oneLine_line hkey (fun hn => absurd (h _ hn) (by decide)) fun hr => absurd (h _ hr) (by decide)

theorem textLines_lines (hnewline : '\n' ∉ control) (hreturn : '\r' ∉ control) :
    textLines ((record.lines control).flatMap (· ++ ['\n'])) = record.lines control := by
  apply textLines_ended_iff.mpr
  intro l hl
  obtain hl | hl := List.mem_append.mp hl
  · simp only [List.mem_cons, List.not_mem_nil, or_false] at hl
    obtain rfl | rfl | rfl | rfl | rfl | rfl := hl
    · exact oneLine_solid (by decide) (solid_printUnsigned _)
    · exact oneLine_solid (by decide) (solid_printUnsigned _)
    · exact oneLine_solid (by decide) (solid_printAddress _)
    · exact oneLine_line (by decide) hnewline hreturn
    · exact oneLine_solid (by decide) (solid_printUnsigned _)
    · exact oneLine_solid (by decide) (solid_printUnsigned _)
  · obtain ⟨upstream, -, rfl⟩ := List.mem_map.mp hl
    exact oneLine_solid (by decide) (solid_printAddress _)

theorem parse_lines (hversion : record.version = discoveryVersion) (hnewline : '\n' ∉ control)
    (hreturn : '\r' ∉ control) :
    DiscoveryRecord.parse (asBytes ((record.lines control).flatMap (· ++ ['\n']))) =
      if asBytes (trimEnd isWhitespace control) = [] then .error .emptyControl
      else .ok { record with
        listen := record.listen.written
        control := asBytes (trimEnd isWhitespace control)
        upstreams := record.upstreams.map SocketAddr.written } := by
  have hfold : (record.lines control).foldlM Draft.readLine {} = .ok
      ⟨some record.version, some record.pid, some record.listen.written,
        some (asBytes (trimEnd isWhitespace control)),
        record.upstreams.map SocketAddr.written, record.cacheEntries, record.cacheLimit⟩ := by
    simp only [DiscoveryRecord.lines, List.cons_append, List.nil_append, List.foldlM_cons,
      readLine_version, readLine_pid, readLine_listen, readLine_control, readLine_cacheEntries,
      readLine_cacheLimit, bind, Except.bind, readLine_upstreams]
  rw [DiscoveryRecord.parse, decodeUtf8_asBytes]
  dsimp only
  rw [textLines_lines hnewline hreturn, hfold]
  change Draft.finish _ = _
  rw [Draft.finish, if_neg (by simp [hversion])]
  dsimp only
  split
  · rfl
  · rw [← hversion]
    rfl

def pathText (path : List UInt8) : Str := path.map fun b => Char.ofNat b.toNat

/-- `DiscoveryRecord::eq`. Two paths are equal if they have the same components. -/
def DiscoveryRecord.Same (a b : DiscoveryRecord) : Prop :=
  a.version = b.version ∧ a.pid = b.pid ∧ a.listen = b.listen ∧
    components (pathText a.control) = components (pathText b.control) ∧
      a.upstreams = b.upstreams ∧ a.cacheEntries = b.cacheEntries ∧ a.cacheLimit = b.cacheLimit

/-- A record of which nothing is lost: its control path is not empty and does not end with white
space, and no address of it has flow information. -/
def DiscoveryRecord.Plain (record : DiscoveryRecord) : Prop :=
  (∀ control, decodeUtf8 record.control = some control →
    ∃ c ∈ control.getLast?, isWhitespace c = false) ∧
      ∀ address ∈ record.listen :: record.upstreams, address.written = address

theorem mem_pathText_asBytes {s : Str} {c : Char} (hc : c.toNat < 128)
    (h : c ∈ pathText (asBytes s)) : c ∈ s := by
  obtain ⟨b, hb, rfl⟩ := List.mem_map.mp h
  have hnat : (Char.ofNat b.toNat).toNat = b.toNat := by
    have := b.toNat_lt
    rw [Char.ofNat, dif_pos (.inl (by omega))]
    rfl
  rw [hnat] at hc
  obtain ⟨d, hd, hbd⟩ := List.mem_flatMap.mp hb
  have hdb := toNat_of_mem_utf8 hc hbd
  rw [← hdb, Char.ofNat_toNat]
  exact hd

theorem trimmed_ne {control : Str}
    (h : components (pathText (asBytes (trimEnd isWhitespace control))) =
      components (pathText (asBytes control))) : trimEnd isWhitespace control = control := by
  obtain ⟨w, hcontrol, hw, -⟩ := trimEnd_append isWhitespace control
  have happend : pathText (asBytes control) =
      pathText (asBytes (trimEnd isWhitespace control)) ++ pathText (asBytes w) := by
    conv => lhs; rw [hcontrol]
    simp only [pathText, asBytes, List.flatMap_append, List.map_append]
  have hempty : pathText (asBytes w) = [] := by
    by_contra hne
    have hnone {c : Char} (hc : c.toNat < 128) (hspace : isWhitespace c = false) :
        c ∉ pathText (asBytes w) := fun hmem => by
      rw [hw c (mem_pathText_asBytes hc hmem)] at hspace
      cases hspace
    refine components_append_ne hne (hnone (by decide) (by decide)) (hnone (by decide) (by decide))
      (pathText (asBytes (trimEnd isWhitespace control))) ?_
    rw [h, ← happend]
  have hw : w = [] := utf8_inj (List.map_eq_nil_iff.mp hempty)
  rw [hw, List.append_nil] at hcontrol
  exact hcontrol.symm

theorem asBytes_eq_nil {s : Str} : asBytes s = [] ↔ s = [] :=
  ⟨fun h => utf8_inj h, fun h => h ▸ rfl⟩

/-- A record that `encode` accepts is read back exactly if it is plain. -/
theorem discovery_iff (record : DiscoveryRecord) (bytes : List UInt8) (h : record.encode = .ok bytes) :
    (∃ parsed, DiscoveryRecord.parse bytes = .ok parsed ∧ parsed.Same record) ↔ record.Plain := by
  obtain ⟨hversion, control, hcontrol, ⟨hnewline, hreturn⟩, rfl⟩ := encode_ok h
  have hbytes := asBytes_of_decodeUtf8 hcontrol
  rw [parse_lines hversion hnewline hreturn]
  constructor
  · rintro ⟨parsed, hparsed, hsame⟩
    split at hparsed
    next => cases hparsed
    next hne =>
      obtain rfl := (Except.ok.inj hparsed).symm
      obtain ⟨-, -, hlisten, hpath, hupstreams, -, -⟩ := hsame
      rw [hbytes] at hpath
      have htrim := trimmed_ne hpath
      refine ⟨fun text htext => ?_, List.forall_mem_cons.mpr ⟨hlisten, ?_⟩⟩
      · obtain rfl := Option.some.inj (hcontrol.symm.trans htext)
        obtain ⟨w, -, -, hlast⟩ := trimEnd_append isWhitespace control
        rw [htrim] at hlast
        rw [htrim, asBytes_eq_nil] at hne
        exact ⟨_, List.getLast?_eq_some_getLast hne, hlast _ (List.getLast?_eq_some_getLast hne)⟩
      · intro address haddress
        have hmap : record.upstreams.map SocketAddr.written = record.upstreams.map id := by
          rw [List.map_id]
          exact hupstreams
        exact List.map_inj_left.mp hmap address haddress
  · rintro ⟨hplain, haddresses⟩
    obtain ⟨c, hc, hspace⟩ := hplain control hcontrol
    obtain ⟨hlisten, hupstreams⟩ := List.forall_mem_cons.mp haddresses
    have htrim : trimEnd isWhitespace control = control := by
      apply trimEnd_self
      intro d hd
      rwa [← Option.some.inj (hc.symm.trans hd)]
    have hne : asBytes control ≠ [] := by
      rw [Ne, asBytes_eq_nil]
      rintro rfl
      cases hc
    rw [htrim, if_neg hne]
    refine ⟨_, rfl, rfl, rfl, hlisten, ?_, ?_, rfl, rfl⟩
    · rw [hbytes]
    · exact (List.map_congr_left hupstreams).trans (List.map_id _)

def published (control : Str) : DiscoveryRecord where
  version := discoveryVersion
  pid := 123
  listen := .v4 ⟨127, 0, 0, 53⟩ 5353
  control := asBytes control
  upstreams := [.v4 ⟨1, 1, 1, 1⟩ 53]
  cacheEntries := 0
  cacheLimit := 64

theorem encode_published (hplain : ('\n' ∉ control ∧ '\r' ∉ control) ∧ '=' ∉ control) :
    (published control).encode =
      .ok (asBytes (((published control).lines control).flatMap (· ++ ['\n']))) := by
  have hcontrol : decodeUtf8 (published control).control = some control := decodeUtf8_asBytes _
  obtain ⟨⟨hn, hr⟩, he⟩ := hplain
  have hversion : ¬ (published control).version ≠ discoveryVersion := not_not.mpr rfl
  have hdelimiter : ¬ ('\n' ∈ control ∨ '\r' ∈ control ∨ '=' ∈ control) := by simp [hn, hr, he]
  rw [DiscoveryRecord.encode, if_neg hversion, hcontrol]
  dsimp only
  rw [if_neg hdelimiter]
  rfl

theorem published_read : ∃ bytes, (published "/r".toList).encode = .ok bytes ∧
    ∃ parsed, DiscoveryRecord.parse bytes = .ok parsed ∧ parsed.Same (published "/r".toList) := by
  refine ⟨_, encode_published (by decide),
    (discovery_iff _ _ (encode_published (by decide))).mpr ⟨fun control hcontrol => ?_, by decide⟩⟩
  rw [published, decodeUtf8_asBytes] at hcontrol
  obtain rfl := Option.some.inj hcontrol
  exact ⟨'r', rfl, by decide⟩

/-- A path that ends with a blank is published, and another is read. -/
theorem published_blank : ∃ bytes, (published "/r ".toList).encode = .ok bytes ∧
    ¬ ∃ parsed, DiscoveryRecord.parse bytes = .ok parsed ∧ parsed.Same (published "/r ".toList) := by
  refine ⟨_, encode_published (by decide), ?_⟩
  rintro ⟨parsed, hparsed, -, -, -, hpath, -⟩
  rw [parse_lines rfl (by decide) (by decide)] at hparsed
  have htrim : trimEnd isWhitespace "/r ".toList = "/r".toList := by decide
  rw [htrim, if_neg (by simp [asBytes_eq_nil])] at hparsed
  obtain rfl := (Except.ok.inj hparsed).symm
  revert hpath
  decide +kernel

end

end FractalD.Resolved.Endpoint
