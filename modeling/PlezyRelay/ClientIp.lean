/-
  PlezyRelay/ClientIp.lean
  ========================
  **Whose request is this?**  Client address resolution (`client_ip.rs`), with the
  function of `logs.rs` that hands it the `X-Forwarded-For` values.

  Parsing an address and CIDR membership belong to the standard library and to `ipnet`;
  they are the given functions of `Addressing`, of which only one thing is assumed: the
  empty text is no address.  Everything else is the source's own: the limits on bytes
  and hops, and the walk from the right with its lagging `selected` address and its
  latch `use_forwarded_hop`.

  `resolveSpec` states what the walk is for without a loop: all hops of all values in
  wire order, an address for each of them, and the first untrusted address when read
  from the peer backwards.  `client_ip_resolution` proves the two equal, and that what
  stands left of the rightmost untrusted hop has no influence but to be refused.

  Before `resolve` sees them, `forwarded_for` drops the values that are not visible
  ASCII.  A hop in such a value is neither used nor refused: `no_hop_skipped_iff`.
-/
import Mathlib.Algebra.Ring.Nat
import Mathlib.Data.String.Basic
import PlezyRelay.Foundation.Splitting
import PlezyRelay.Protocol

namespace PlezyRelay

def MAX_FORWARDED_FOR_BYTES : Nat := 4 * 1024
def MAX_FORWARDED_FOR_HOPS : Nat := 32

/-! ### Addresses -/

inductive IpAddr where
  | v4 (octets : Vector UInt8 4)
  | v6 (octets : Vector UInt8 16)
deriving DecidableEq

/-- `Ipv6Addr::to_ipv4_mapped`: the last four bytes of `::ffff:a.b.c.d`. -/
def toIpv4Mapped (octets : Vector UInt8 16) : Option (Vector UInt8 4) :=
  if octets.toList.take 12 = List.replicate 10 0 ++ [255, 255] then
    some #v[octets[12], octets[13], octets[14], octets[15]]
  else none

def unmap : IpAddr → IpAddr
  | .v6 octets =>
      match toIpv4Mapped octets with
      | some v4 => .v4 v4
      | none => .v6 octets
  | .v4 octets => .v4 octets

/-- IPv6 addresses are masked to their /64. -/
def normalize : IpAddr → IpAddr
  | .v4 octets => .v4 octets
  | .v6 octets => .v6 (Vector.ofFn fun i => if i.val < 8 then octets[i] else 0)

@[simp] theorem unmap_unmap (addr : IpAddr) : unmap (unmap addr) = unmap addr := by
  cases addr with
  | v4 octets => rfl
  | v6 octets =>
      cases hmapped : toIpv4Mapped octets with
      | none => simp [unmap, hmapped]
      | some v4 => simp [unmap, hmapped]

/-- `str::parse::<IpAddr>` and `ipnet`. -/
class Addressing where
  IpNet : Type
  contains : IpNet → IpAddr → Bool
  parse : String → Option IpAddr
  parse_empty : parse "" = none

/-- Four addresses, and the networks `a.0.0.0/8`. -/
@[reducible] def sampleAddressing : Addressing where
  IpNet := UInt8
  contains net addr :=
    match addr with
    | .v4 octets => octets[0] == net
    | .v6 _ => false
  parse text :=
    if text = "10.0.0.1" then some (.v4 #v[10, 0, 0, 1])
    else if text = "10.0.0.2" then some (.v4 #v[10, 0, 0, 2])
    else if text = "198.51.100.1" then some (.v4 #v[198, 51, 100, 1])
    else if text = "203.0.113.9" then some (.v4 #v[203, 0, 113, 9])
    else none
  parse_empty := rfl

/-- The crate's error type, which carries nothing. -/
inductive ClientIpError where
  | clientIpError
deriving DecidableEq

/-! ### Text -/

/-- `char::is_whitespace`. -/
def isWhitespace (c : Char) : Bool :=
  let n := c.toNat
  (9 ≤ n && n ≤ 13) || n == 32 || n == 133 || n == 160 || n == 5760 || (8192 ≤ n && n ≤ 8202) ||
    n == 8232 || n == 8233 || n == 8239 || n == 8287 || n == 12288

/-- `str::trim`. -/
def trim (text : String) : String :=
  String.ofList ((text.toList.dropWhile isWhitespace).reverse.dropWhile isWhitespace).reverse

/-- The comma-separated elements of a value, from left to right; `rsplit(',')` goes through
    them from right to left. -/
def splitCommas (value : String) : List String :=
  (value.toList.splitOn ',').map String.ofList

/-! ### Resolving -/

section Resolver

variable [Addressing]

structure ClientIpResolver where
  trustedProxies : List Addressing.IpNet

/-- The address an element of a value stands for. -/
def hopAddr (element : String) : Option IpAddr := Addressing.parse (trim element)

namespace ClientIpResolver

variable (self : ClientIpResolver)

def trusted (addr : IpAddr) : Bool :=
  self.trustedProxies.any fun net => Addressing.contains net (unmap addr)

/-- The first loop of `resolve`, over the values left to count. -/
def checkLimits (totalBytes hopCount : Nat) : List String → Except ClientIpError Unit
  | [] => .ok ()
  | value :: rest =>
      let totalBytes := totalBytes + value.utf8ByteSize
      if MAX_FORWARDED_FOR_BYTES < totalBytes then .error .clientIpError
      else
        let hopCount := hopCount + (value.toList.count ',' + 1)
        if MAX_FORWARDED_FOR_HOPS < hopCount then .error .clientIpError
        else checkLimits totalBytes hopCount rest

/-- The locals of the second loop: `selected` and `use_forwarded_hop`. -/
structure Walk where
  selected : IpAddr
  useForwardedHop : Bool

/-- The body of the inner loop. -/
def walkElement (walk : Walk) (element : String) : Except ClientIpError Walk :=
  let element := trim element
  if element = "" then .error .clientIpError
  else
    match Addressing.parse element with
    | none => .error .clientIpError
    | some addr =>
        .ok (if walk.useForwardedHop then
          if self.trusted walk.selected then { walk with selected := unmap addr }
          else { walk with useForwardedHop := false }
        else walk)

/-- The inner loop: the elements of one value, from right to left. -/
def walkValue (walk : Walk) (value : String) : Except ClientIpError Walk :=
  (splitCommas value).reverse.foldlM self.walkElement walk

def resolve (peerAddr : IpAddr) (forwardedFor : List String) : Except ClientIpError IpAddr :=
  let peer := unmap peerAddr
  if !self.trusted peer then .ok (normalize peer)
  else if forwardedFor.isEmpty then .ok (normalize peer)
  else do
    checkLimits 0 0 forwardedFor
    let walk ← forwardedFor.reverse.foldlM self.walkValue
      { selected := peer, useForwardedHop := true }
    pure (normalize walk.selected)

/-! ### What it is for -/

/-- Values that are too long, have too many hops, or a hop that is no address. -/
def Refused (values : List String) : Prop :=
  MAX_FORWARDED_FOR_BYTES < (values.map String.utf8ByteSize).sum ∨
    MAX_FORWARDED_FOR_HOPS < (values.flatMap splitCommas).length ∨
    ∃ hop ∈ values.flatMap splitCommas, hopAddr hop = none

instance (values : List String) : Decidable (Refused values) :=
  inferInstanceAs (Decidable (_ ∨ _ ∨ _))

/-- The client's address: the first untrusted one of the peer and the hops from right to
    left, or the first hop if all are trusted. -/
def resolveSpec (peerAddr : IpAddr) (values : List String) : Except ClientIpError IpAddr :=
  if self.trusted peerAddr = false ∨ values = [] then .ok (normalize (unmap peerAddr))
  else if Refused values then .error .clientIpError
  else
    let addrs := (values.flatMap splitCommas).filterMap hopAddr
    let path := unmap peerAddr :: addrs.reverse.map unmap
    .ok (normalize ((path.find? fun addr => !self.trusted addr).getD
      ((addrs.head?.map unmap).getD (unmap peerAddr))))

/-! ### The loops -/

omit [Addressing] in
theorem length_splitCommas (value : String) :
    (splitCommas value).length = value.toList.count ',' + 1 := by
  rw [splitCommas, List.length_map, List.length_splitOn]

omit [Addressing] in
/-- Counting stops early only if the totals are too large. -/
theorem checkLimits_eq {totalBytes hopCount : Nat} (values : List String)
    (hbytes : totalBytes ≤ MAX_FORWARDED_FOR_BYTES) (hhops : hopCount ≤ MAX_FORWARDED_FOR_HOPS) :
    checkLimits totalBytes hopCount values =
      if MAX_FORWARDED_FOR_BYTES < totalBytes + (values.map String.utf8ByteSize).sum ∨
          MAX_FORWARDED_FOR_HOPS < hopCount + (values.flatMap splitCommas).length then
        .error .clientIpError
      else .ok () := by
  induction values generalizing totalBytes hopCount with
  | nil => simp [checkLimits, Nat.not_lt.mpr hbytes, Nat.not_lt.mpr hhops]
  | cons value rest ih =>
      simp only [checkLimits, List.map_cons, List.sum_cons, List.flatMap_cons, List.length_append,
        length_splitCommas]
      split
      · rw [if_pos]
        left
        omega
      · split
        · rw [if_pos]
          right
          omega
        · rw [ih (by omega) (by omega)]
          simp only [Nat.add_assoc]

/-- What the inner loop does with an address. -/
def Walk.step (walk : Walk) (addr : IpAddr) : Walk :=
  if walk.useForwardedHop then
    if self.trusted walk.selected then { walk with selected := unmap addr }
    else { walk with useForwardedHop := false }
  else walk

theorem walkElement_eq (walk : Walk) (element : String) :
    self.walkElement walk element =
      match hopAddr element with
      | none => .error .clientIpError
      | some addr => .ok (walk.step self addr) := by
  rw [walkElement, hopAddr]
  split
  · rename_i hempty
    rw [hempty, Addressing.parse_empty]
  · rfl

/-- Every element is parsed, whether it is used or not. -/
theorem foldlM_walkElement (elements : List String) (walk : Walk) :
    elements.foldlM self.walkElement walk =
      if ∃ element ∈ elements, hopAddr element = none then .error .clientIpError
      else .ok ((elements.filterMap hopAddr).foldl (Walk.step self) walk) := by
  induction elements generalizing walk with
  | nil => simp [pure, Except.pure]
  | cons element rest ih =>
      rw [List.foldlM_cons, walkElement_eq]
      cases haddr : hopAddr element with
      | none => simp [haddr, bind, Except.bind]
      | some addr => simp [haddr, bind, Except.bind, ih]

/-- Once the latch is off the address stays. -/
theorem foldl_step_latched (addrs : List IpAddr) (selected : IpAddr) :
    addrs.foldl (Walk.step self) ⟨selected, false⟩ = ⟨selected, false⟩ := by
  induction addrs with
  | nil => rfl
  | cons addr addrs ih =>
      rw [List.foldl_cons]
      exact ih

/-- The lagging address ends up at the first untrusted one, or at the last. -/
theorem foldl_step (addrs : List IpAddr) (selected : IpAddr) :
    (addrs.foldl (Walk.step self) ⟨selected, true⟩).selected =
      ((selected :: addrs.map unmap).find? fun addr => !self.trusted addr).getD
        ((addrs.getLast?.map unmap).getD selected) := by
  induction addrs generalizing selected with
  | nil => cases htrusted : self.trusted selected <;> simp [htrusted]
  | cons addr addrs ih =>
      rw [List.foldl_cons]
      cases htrusted : self.trusted selected with
      | true =>
          have hstep : Walk.step self ⟨selected, true⟩ addr = ⟨unmap addr, true⟩ := by
            simp [Walk.step, htrusted]
          rw [hstep, ih]
          simp only [List.map_cons, List.find?_cons, htrusted, Bool.not_true, List.getLast?_cons]
          cases addrs.getLast? <;> rfl
      | false =>
          have hstep : Walk.step self ⟨selected, true⟩ addr = ⟨selected, false⟩ := by
            simp [Walk.step, htrusted]
          rw [hstep, foldl_step_latched]
          simp [htrusted]

@[simp] theorem trusted_unmap (addr : IpAddr) : self.trusted (unmap addr) = self.trusted addr := by
  simp [trusted]

/-- The nested loops, read as one pass over all hops. -/
theorem foldlM_walkValue (values : List String) (peer : IpAddr) :
    values.reverse.foldlM self.walkValue { selected := peer, useForwardedHop := true } =
      if ∃ hop ∈ values.flatMap splitCommas, hopAddr hop = none then .error .clientIpError
      else .ok (((values.flatMap splitCommas).filterMap hopAddr).reverse.foldl (Walk.step self)
        ⟨peer, true⟩) := by
  have hloops : values.reverse.foldlM self.walkValue { selected := peer, useForwardedHop := true } =
      (values.flatMap splitCommas).reverse.foldlM self.walkElement ⟨peer, true⟩ := by
    rw [List.reverse_flatMap, List.foldlM_flatMap]
    rfl
  rw [hloops, foldlM_walkElement, List.filterMap_reverse]
  simp only [List.mem_reverse]

theorem resolve_eq_resolveSpec (peerAddr : IpAddr) (values : List String) :
    self.resolve peerAddr values = self.resolveSpec peerAddr values := by
  cases hpeer : self.trusted peerAddr with
  | false => simp [resolve, resolveSpec, hpeer]
  | true =>
      by_cases hvalues : values = []
      · simp [resolve, resolveSpec, hpeer, hvalues]
      · simp only [resolve, resolveSpec, trusted_unmap, hpeer, hvalues, Bool.not_true,
          Bool.false_eq_true, Bool.true_eq_false, List.isEmpty_iff, or_self, if_false]
        rw [checkLimits_eq values (Nat.zero_le _) (Nat.zero_le _), foldlM_walkValue]
        simp only [Nat.zero_add]
        by_cases hlimits : MAX_FORWARDED_FOR_BYTES < (values.map String.utf8ByteSize).sum ∨
            MAX_FORWARDED_FOR_HOPS < (values.flatMap splitCommas).length
        · have hrefused : Refused values := by
            rcases hlimits with hbytes | hhops
            · exact Or.inl hbytes
            · exact Or.inr (Or.inl hhops)
          rw [if_pos hlimits, if_pos hrefused]
          rfl
        · by_cases hbad : ∃ hop ∈ values.flatMap splitCommas, hopAddr hop = none
          · have hrefused : Refused values := Or.inr (Or.inr hbad)
            rw [if_neg hlimits, if_pos hbad, if_pos hrefused]
            rfl
          · have haccepted : ¬Refused values := by
              rintro (hbytes | hhops | hhop)
              · exact hlimits (Or.inl hbytes)
              · exact hlimits (Or.inr hhops)
              · exact hbad hhop
            rw [if_neg hlimits, if_neg hbad, if_neg haccepted]
            rw [← List.getLast?_reverse, ← foldl_step]
            rfl

/-! ### What the client cannot influence -/

variable {self} {peerAddr addr : IpAddr} {values left right : List String} {hop : String}

/-- The rightmost untrusted hop decides, if the values are not refused. -/
theorem resolve_of_untrusted_hop (hpeer : self.trusted peerAddr = true)
    (hhops : values.flatMap splitCommas = left ++ hop :: right) (haddr : hopAddr hop = some addr)
    (huntrusted : self.trusted addr = false)
    (hright : ∀ h ∈ right, ∀ a, hopAddr h = some a → self.trusted a = true)
    (haccepted : ¬Refused values) : self.resolve peerAddr values = .ok (normalize (unmap addr)) := by
  have hvalues : values ≠ [] := by
    rintro rfl
    cases left <;> cases hhops
  have hskipped : ((right.filterMap hopAddr).reverse.map unmap).find?
      (fun a => !self.trusted a) = none := by
    rw [List.find?_eq_none]
    intro a ha
    obtain ⟨b, hb, rfl⟩ := List.mem_map.mp ha
    obtain ⟨h, hh, hb⟩ := List.mem_filterMap.mp (List.mem_reverse.mp hb)
    simp [hright h hh b hb]
  rw [resolve_eq_resolveSpec, resolveSpec, if_neg (by simp [hpeer, hvalues]), if_neg haccepted, hhops]
  simp only [List.filterMap_append, List.filterMap_cons, haddr, List.reverse_append,
    List.reverse_cons, List.map_append, List.append_assoc, List.find?_cons, List.find?_append,
    hskipped, trusted_unmap, hpeer]
  simp [huntrusted]

theorem resolve_of_untrusted_peer (hpeer : self.trusted peerAddr = false) (values : List String) :
    self.resolve peerAddr values = .ok (normalize (unmap peerAddr)) := by
  rw [resolve_eq_resolveSpec, resolveSpec, if_pos (Or.inl hpeer)]

theorem not_refused_nil : ¬Refused [] := by
  rintro (hbytes | hhops | ⟨hop, hhop, _⟩)
  · cases hbytes
  · cases hhops
  · cases hhop

/-- Behind a trusted peer the values are refused, or an address comes out. -/
theorem resolve_eq_error_iff (hpeer : self.trusted peerAddr = true) :
    self.resolve peerAddr values = .error .clientIpError ↔ Refused values := by
  by_cases hvalues : values = []
  · subst hvalues
    simp [resolve_eq_resolveSpec, resolveSpec, not_refused_nil]
  · rw [resolve_eq_resolveSpec, resolveSpec, if_neg (by simp [hpeer, hvalues])]
    by_cases hrefused : Refused values
    · simp [hrefused]
    · simp [hrefused]

end ClientIpResolver

/-- A byte an HTTP header value may hold. -/
def isHeaderByte (b : UInt8) : Bool := (32 ≤ b && b != 127) || b == 9

/-- A byte `HeaderValue::to_str` lets through: visible ASCII, space or tab. -/
def isVisibleAscii (b : UInt8) : Bool := (32 ≤ b && b < 127) || b == 9

/-- `http::HeaderValue`. -/
structure HeaderValue where
  bytes : List UInt8
  valid : bytes.all isHeaderByte = true

/-- The text of a sequence of ASCII bytes. -/
def asciiText (bytes : List UInt8) : String := String.ofList (bytes.map fun b => Char.ofNat b.toNat)

namespace HeaderValue

def readable (value : HeaderValue) : Bool := value.bytes.all isVisibleAscii

/-- `HeaderValue::to_str`. -/
def toStr (value : HeaderValue) : Option String :=
  if value.readable then some (asciiText value.bytes) else none

/-- The comma-separated hops of the value as it came over the wire. -/
def rawHops (value : HeaderValue) : List (List UInt8) := value.bytes.splitOn 44

end HeaderValue

/-- `forwarded_for`, on the values of all `X-Forwarded-For` headers in wire order. -/
def forwardedFor (headers : List HeaderValue) : List String := headers.filterMap HeaderValue.toStr

/-- The address a raw hop is the text of. -/
def rawHopAddr (hop : List UInt8) : Option IpAddr :=
  if hop.all isVisibleAscii then hopAddr (asciiText hop) else none

/-- Some hop of some value is not the text of an address. -/
def Malformed (headers : List HeaderValue) : Prop :=
  ∃ value ∈ headers, ∃ hop ∈ value.rawHops, rawHopAddr hop = none

instance (headers : List HeaderValue) : Decidable (Malformed headers) :=
  inferInstanceAs (Decidable (∃ value ∈ headers, ∃ hop ∈ value.rawHops, rawHopAddr hop = none))

/-- The readable values alone are too long, have too many hops or a malformed one. -/
def RefusedAnyway (headers : List HeaderValue) : Prop :=
  MAX_FORWARDED_FOR_BYTES < ((headers.filter (·.readable)).map (·.bytes.length)).sum ∨
    MAX_FORWARDED_FOR_HOPS < ((headers.filter (·.readable)).flatMap (·.rawHops)).length ∨
    Malformed (headers.filter (·.readable))

/-! ### Splitting bytes and splitting text -/

omit [Addressing] in
theorem ofNat_toNat_beq_comma (b : UInt8) : (Char.ofNat b.toNat == ',') = (b == 44) := by
  have hall : ∀ n < 256, (Char.ofNat n == ',') = (n == 44) := by decide +kernel
  rw [hall b.toNat b.toNat_lt, Bool.eq_iff_iff, beq_iff_eq, beq_iff_eq]
  exact UInt8.toNat_inj (b := 44)

omit [Addressing] in
/-- The hops of the text are the texts of the hops. -/
theorem splitCommas_asciiText (bytes : List UInt8) :
    splitCommas (asciiText bytes) = (bytes.splitOn 44).map asciiText := by
  rw [splitCommas, asciiText, String.toList_ofList, List.splitOn_map ofNat_toNat_beq_comma,
    List.map_map]
  rfl

omit [Addressing] in
theorem utf8Size_of_visible {b : UInt8} (h : isVisibleAscii b = true) :
    (Char.ofNat b.toNat).utf8Size = 1 := by
  have hall : ∀ n < 127, (Char.ofNat n).utf8Size = 1 := by decide +kernel
  apply hall
  simp only [isVisibleAscii, Bool.or_eq_true, Bool.and_eq_true, decide_eq_true_eq, beq_iff_eq] at h
  rcases h with ⟨_, hlt⟩ | rfl
  · exact UInt8.lt_iff_toNat_lt.mp hlt
  · decide

omit [Addressing] in
theorem utf8ByteSize_asciiText {bytes : List UInt8} (h : bytes.all isVisibleAscii = true) :
    (asciiText bytes).utf8ByteSize = bytes.length := by
  rw [asciiText, String.utf8ByteSize_ofList]
  induction bytes with
  | nil => rfl
  | cons b bytes ih =>
      rw [List.all_cons, Bool.and_eq_true] at h
      rw [List.map_cons, String.utf8Len_cons, ih h.2, utf8Size_of_visible h.1]
      rfl

/-! ### What is skipped -/

namespace HeaderValue

variable {value : HeaderValue}

omit [Addressing] in
theorem visible_of_readable (h : value.readable = true) {hop : List UInt8} (hhop : hop ∈ value.rawHops) :
    hop.all isVisibleAscii = true := by
  rw [List.all_eq_true]
  intro b hb
  exact List.all_eq_true.mp h b (List.mem_of_mem_splitOn hhop hb)

/-- In a readable value a raw hop is the text of the address that its text parses to. -/
theorem rawHopAddr_of_readable (h : value.readable = true) {hop : List UInt8}
    (hhop : hop ∈ value.rawHops) : rawHopAddr hop = hopAddr (asciiText hop) := by
  rw [rawHopAddr, if_pos (visible_of_readable h hhop)]

/-- An unreadable value has a hop that is no text at all. -/
theorem exists_malformed (h : value.readable = false) :
    ∃ hop ∈ value.rawHops, rawHopAddr hop = none := by
  obtain ⟨b, hb, hinvisible⟩ : ∃ b ∈ value.bytes, ¬isVisibleAscii b = true := by
    rw [readable] at h
    simpa using h
  have hcomma : b ≠ 44 := by
    rintro rfl
    exact hinvisible rfl
  obtain ⟨hop, hhop, hmem⟩ := List.exists_mem_splitOn hb hcomma
  refine ⟨hop, hhop, ?_⟩
  rw [rawHopAddr, if_neg]
  intro hvisible
  exact hinvisible (List.all_eq_true.mp hvisible b hmem)

end HeaderValue

section Headers

variable {headers : List HeaderValue}

omit [Addressing] in
/-- What is left of the headers is the text of the readable ones. -/
theorem forwardedFor_eq (headers : List HeaderValue) :
    forwardedFor headers = (headers.filter (·.readable)).map fun value => asciiText value.bytes := by
  induction headers with
  | nil => rfl
  | cons value headers ih =>
      cases hreadable : value.readable with
      | false => simpa [forwardedFor, HeaderValue.toStr, hreadable] using ih
      | true => simpa [forwardedFor, HeaderValue.toStr, hreadable] using ih

omit [Addressing] in
theorem flatMap_forwardedFor (headers : List HeaderValue) :
    (forwardedFor headers).flatMap splitCommas =
      ((headers.filter (·.readable)).flatMap (·.rawHops)).map asciiText := by
  rw [forwardedFor_eq, List.flatMap_map, List.map_flatMap]
  simp only [splitCommas_asciiText]
  rfl

omit [Addressing] in
theorem map_utf8ByteSize_forwardedFor (headers : List HeaderValue) :
    (forwardedFor headers).map String.utf8ByteSize =
      (headers.filter (·.readable)).map (·.bytes.length) := by
  rw [forwardedFor_eq, List.map_map]
  apply List.map_congr_left
  intro value hvalue
  exact utf8ByteSize_asciiText (List.mem_filter.mp hvalue).2

/-- The readable values are refused for what is in them. -/
theorem refused_forwardedFor : ClientIpResolver.Refused (forwardedFor headers) ↔ RefusedAnyway headers := by
  have hmalformed : (∃ hop ∈ (forwardedFor headers).flatMap splitCommas, hopAddr hop = none) ↔
      Malformed (headers.filter (·.readable)) := by
    rw [flatMap_forwardedFor]
    constructor
    · rintro ⟨text, htext, hnone⟩
      obtain ⟨hop, hhop, rfl⟩ := List.mem_map.mp htext
      obtain ⟨value, hvalue, hhop⟩ := List.mem_flatMap.mp hhop
      have hreadable := (List.mem_filter.mp hvalue).2
      exact ⟨value, hvalue, hop, hhop, by rwa [value.rawHopAddr_of_readable hreadable hhop]⟩
    · rintro ⟨value, hvalue, hop, hhop, hnone⟩
      have hreadable := (List.mem_filter.mp hvalue).2
      rw [value.rawHopAddr_of_readable hreadable hhop] at hnone
      exact ⟨asciiText hop, List.mem_map_of_mem (List.mem_flatMap.mpr ⟨value, hvalue, hhop⟩), hnone⟩
  rw [ClientIpResolver.Refused, RefusedAnyway, hmalformed, map_utf8ByteSize_forwardedFor,
    flatMap_forwardedFor, List.length_map]

end Headers

open ClientIpResolver in
/-- **Which malformed hops are refused.**  Behind a trusted peer, for all raw header values:
    a malformed hop anywhere makes `resolve` fail exactly if every value is readable, or the
    readable values are refused for themselves.  If every value is readable, an address that
    comes out is that of the rightmost untrusted hop, whatever stands left of it. -/
theorem no_hop_skipped_iff (self : ClientIpResolver) {peerAddr : IpAddr}
    (hpeer : self.trusted peerAddr = true) (headers : List HeaderValue) :
    ((Malformed headers →
        self.resolve peerAddr (forwardedFor headers) = .error .clientIpError) ↔
      (∀ value ∈ headers, value.readable = true) ∨ RefusedAnyway headers) ∧
    ((∀ value ∈ headers, value.readable = true) →
      ∀ left hop right addr, headers.flatMap (·.rawHops) = left ++ hop :: right →
        rawHopAddr hop = some addr → self.trusted addr = false →
        (∀ h ∈ right, ∀ a, rawHopAddr h = some a → self.trusted a = true) →
        ∀ ip, self.resolve peerAddr (forwardedFor headers) = .ok ip → ip = normalize (unmap addr)) := by
  rw [resolve_eq_error_iff hpeer, refused_forwardedFor]
  have hfilter : (∀ value ∈ headers, value.readable = true) →
      headers.filter (·.readable) = headers := List.filter_eq_self.mpr
  constructor
  · constructor
    · intro h
      by_cases hall : ∀ value ∈ headers, value.readable = true
      · exact Or.inl hall
      · right
        apply h
        push Not at hall
        obtain ⟨value, hvalue, hunreadable⟩ := hall
        exact ⟨value, hvalue, value.exists_malformed (Bool.eq_false_iff.mpr hunreadable)⟩
    · rintro (hall | hrefused) hmalformed
      · right; right
        rw [hfilter hall]
        exact hmalformed
      · exact hrefused
  · intro hall left hop right addr hhops haddr huntrusted hright ip hip
    have hreadable : ∀ h ∈ headers.flatMap (·.rawHops), rawHopAddr h = hopAddr (asciiText h) := by
      intro h hh
      obtain ⟨value, hvalue, hh⟩ := List.mem_flatMap.mp hh
      exact value.rawHopAddr_of_readable (hall value hvalue) hh
    rw [hhops] at hreadable
    have hsplit : (forwardedFor headers).flatMap splitCommas =
        left.map asciiText ++ asciiText hop :: right.map asciiText := by
      rw [flatMap_forwardedFor, hfilter hall, hhops, List.map_append, List.map_cons]
    have haccepted : ¬Refused (forwardedFor headers) := by
      intro hrefused
      rw [(resolve_eq_error_iff hpeer).mpr hrefused] at hip
      cases hip
    have hresolved := resolve_of_untrusted_hop hpeer hsplit
      (by rw [← hreadable hop (by simp)]; exact haddr) huntrusted ?_ haccepted
    · rw [hresolved] at hip
      exact (Except.ok.inj hip).symm
    · intro text htext a ha
      obtain ⟨h, hh, rfl⟩ := List.mem_map.mp htext
      exact hright h hh a (by rw [hreadable h (by simp [hh])]; exact ha)

/-- The header value with these bytes before this text. -/
def rawValue (bytes : List UInt8) (text : String)
    (h : (bytes ++ text.toUTF8.data.toList).all isHeaderByte = true) : HeaderValue :=
  ⟨bytes ++ text.toUTF8.data.toList, h⟩

omit [Addressing] in
/-- A readable value with a malformed hop is refused, and one without resolves to its client. -/
theorem no_hop_skipped_when_readable : letI : Addressing := sampleAddressing
    let self : ClientIpResolver := ⟨[(10 : UInt8)]⟩
    let peer := IpAddr.v4 #v[10, 0, 0, 1]
    let headers := [rawValue [] "203.0.113.9" (by decide +kernel),
      rawValue [] "not-an-ip, 10.0.0.2" (by decide +kernel)]
    self.trusted peer = true ∧ Malformed headers ∧
      self.resolve peer (forwardedFor headers) = .error .clientIpError := by
  let _ : Addressing := sampleAddressing
  intro self peer headers
  have hpeer : self.trusted peer = true := by decide +kernel
  have hmalformed : Malformed headers := by decide +kernel
  have hreadable : ∀ value ∈ headers, value.readable = true := by decide +kernel
  exact ⟨hpeer, hmalformed, (no_hop_skipped_iff self hpeer headers).1.mpr (Or.inl hreadable) hmalformed⟩

omit [Addressing] in
/-- A client sends two values, the second with a byte that is not ASCII.  The proxy appends the
    client's address to the last one, which is then dropped, and the first one is believed. -/
theorem unreadable_value_skipped : letI : Addressing := sampleAddressing
    let self : ClientIpResolver := ⟨[(10 : UInt8)]⟩
    let peer := IpAddr.v4 #v[10, 0, 0, 1]
    let headers := [rawValue [] "198.51.100.1" (by decide +kernel),
      rawValue [255] ", 203.0.113.9" (by decide +kernel)]
    self.trusted peer = true ∧ Malformed headers ∧
      self.resolve peer (forwardedFor headers) = .ok (.v4 #v[198, 51, 100, 1]) := by
  decide +kernel

end Resolver

end PlezyRelay
