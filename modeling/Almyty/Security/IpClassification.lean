import Almyty.Lib.IpText

/-!
# Which addresses are blocked: `common/security/ip-classification.ts`

`classifyAddress` reads an IPv6 address itself, to find an IPv4 address it delivers to. It reads
every text of the address as the same eight words (`parseIPv6_text`), so what it answers depends on
the address and not on its spelling, and an address is blocked when it lies in a range, or delivers
to one that does (`classification_by_address`). A text with a zone is blocked whatever its address
is.

Mirroring notes:
- `net.isIP` and `net.BlockList` are parameters, with what they are documented for (`Net`).
- `toLowerCase` is that of ASCII letters: no other text is an address, or becomes one.
-/

namespace Almyty.Security.IpClassification

open Almyty.Lib Almyty.Lib.Ip List

/-! ## Ranges -/

def BLOCKED_IPV4_CIDRS : List (String × Nat) :=
  [("0.0.0.0", 8), ("10.0.0.0", 8), ("100.64.0.0", 10), ("127.0.0.0", 8), ("169.254.0.0", 16),
    ("172.16.0.0", 12), ("192.0.0.0", 24), ("192.0.2.0", 24), ("192.88.99.0", 24),
    ("192.168.0.0", 16), ("198.18.0.0", 15), ("198.51.100.0", 24), ("203.0.113.0", 24),
    ("224.0.0.0", 4), ("240.0.0.0", 4), ("255.255.255.255", 32)]

def BLOCKED_IPV6_CIDRS : List (String × Nat) :=
  [("::", 96), ("::ffff:0:0:0", 96), ("64:ff9b::", 96), ("64:ff9b:1::", 48), ("100::", 64),
    ("2001::", 32), ("2001:2::", 48), ("2001:10::", 28), ("2001:20::", 28), ("2001:db8::", 32),
    ("3fff::", 20), ("fc00::", 7), ("fe80::", 10), ("fec0::", 10), ("ff00::", 8)]

def CLOUD_METADATA_ADDRESSES : List String :=
  ["169.254.169.254", "169.254.170.2", "fd00:ec2::254"]

inductive Family
  | ipv4
  | ipv6

inductive Rule
  | address (addr : String) (family : Family)
  | subnet (addr : String) (bits : Nat) (family : Family)

def blocked : List Rule :=
  (BLOCKED_IPV4_CIDRS.map fun e => if e.2 = 32 then .address e.1 .ipv4 else .subnet e.1 e.2 .ipv4) ++
    BLOCKED_IPV6_CIDRS.map fun e => if e.2 = 128 then .address e.1 .ipv6 else .subnet e.1 e.2 .ipv6

def SamePrefix (width bits a b : Nat) : Prop := a / 2 ^ (width - bits) = b / 2 ^ (width - bits)

instance (width bits a b : Nat) : Decidable (SamePrefix width bits a b) :=
  inferInstanceAs (Decidable (_ = _))

def valueOf (words : List Nat) : Nat := words.foldl (fun n w => n * 65536 + w) 0

def LiesIn4 (addr : String) (bits : Nat) (q : Quad) : Prop :=
  ∃ base : Quad, base.text = addr.toList ∧ SamePrefix 32 bits q.value base.value

def LiesIn6 (addr : String) (bits : Nat) (words : List Nat) : Prop :=
  ∃ base : Ipv6Text, base.text = addr.toList ∧ SamePrefix 128 bits (valueOf words) (valueOf base.words)

def Rule.Covers4 (q : Quad) : Rule → Prop
  | .address addr .ipv4 => LiesIn4 addr 32 q
  | .subnet addr bits .ipv4 => LiesIn4 addr bits q
  | _ => False

def Rule.Covers6 (words : List Nat) : Rule → Prop
  | .address addr .ipv6 => LiesIn6 addr 128 words
  | .subnet addr bits .ipv6 => LiesIn6 addr bits words
  | _ => False

/-! ## The network module -/

/-- `%eth0` -/
structure Zone where
  name : List Char
  ne_nil : name ≠ []
  allowed : ∀ c ∈ name, (c.isAlphanum || c == '-' || c == '.' || c == ':') = true

def zoneText (zone : Option Zone) : List Char := zone.elim [] fun z => '%' :: z.name

structure IsIp (isIP : List Char → Nat) : Prop where
  four : ∀ text, isIP text = 4 ↔ ∃ q : Quad, q.text = text
  six : ∀ text, isIP text = 6 ↔ ∃ (t : Ipv6Text) (zone : Option Zone), t.text ++ zoneText zone = text

def mappedWords (q : Quad) : List Nat := [0, 0, 0, 0, 0, 0xffff] ++ q.words

structure Checks (check : List Rule → List Char → Family → Bool) : Prop where
  four : ∀ rules (q : Quad), check rules q.text .ipv4 = true ↔ ∃ rule ∈ rules, rule.Covers4 q
  six : ∀ rules (t : Ipv6Text), check rules t.text .ipv6 = true ↔
    ∃ rule ∈ rules, rule.Covers6 t.words ∨ ∃ q, t.words = mappedWords q ∧ rule.Covers4 q

structure Net where
  isIP : List Char → Nat
  check : List Rule → List Char → Family → Bool
  isIp : IsIp isIP
  checks : Checks check

/-! ## The classifier -/

def stripBrackets (host : List Char) : List Char :=
  if host.head? = some '[' ∧ host.getLast? = some ']' then (host.drop 1).dropLast else host

def splitDouble : List Char → List (List Char)
  | [] => [[]]
  | [c] => [[c]]
  | c :: d :: rest =>
    if c = ':' ∧ d = ':' then [] :: splitDouble rest
    else (splitDouble (d :: rest)).modifyHead (c :: ·)

def splitHalf (half : List Char) : List (List Char) := if half = [] then [] else half.splitOn ':'

def wordOf (group : List Char) : Option Nat :=
  if group ≠ [] ∧ group.length ≤ 4 ∧ group.all isLowerHex then
    some (parseHex group)
  else none

/-- The words of a text without an IPv4 tail. -/
def parseGroups (s : List Char) : Option (List Nat) :=
  let halves := splitDouble s
  if halves.length > 2 then none
  else
    let head := splitHalf (halves.headD [])
    let rest := if halves.length = 2 then splitHalf (halves[1]?.getD []) else []
    let fill : Int := 8 - head.length - rest.length
    if halves.length = 2 ∧ fill < 1 then none
    else
      let groups :=
        if halves.length = 2 then head ++ List.replicate fill.toNat ['0'] ++ rest else head
      if groups.length ≠ 8 then none else groups.mapM wordOf

section Parse

variable (isIP : List Char → Nat)

/-- The last two words are written as groups. -/
def withoutTail (s : List Char) : Option (List Char) :=
  let tail := s.rtakeWhile (· ≠ ':')
  if tail.contains '.' then
    if isIP tail ≠ 4 then none
    else
      let o := (tail.splitOn '.').map fun digits => Nat.ofDigitChars 10 digits 0
      some (s.rdropWhile (· ≠ ':') ++
        (Nat.toDigits 16 ((o[0]?.getD 0) <<< 8 ||| (o[1]?.getD 0)) ++
          ':' :: Nat.toDigits 16 ((o[2]?.getD 0) <<< 8 ||| (o[3]?.getD 0))))
  else some s

def parseIPv6 (address : List Char) : Option (List Nat) :=
  if isIP address ≠ 6 then none
  else (withoutTail isIP (address.map Char.toLower)).bind parseGroups

def v4FromWords (hi lo : Nat) : List Char :=
  ['.'].intercalate ([hi >>> 8, hi &&& 0xff, lo >>> 8, lo &&& 0xff].map (Nat.toDigits 10))

def canonicalIPv6 (address : List Char) : Option (List Char) :=
  (parseIPv6 isIP address).map fun w => colons (w.map (Nat.toDigits 16))

def embeddedIPv4 (address : List Char) : Option (List Char) :=
  match parseIPv6 isIP address with
  | some [w0, w1, w2, w3, w4, w5, w6, w7] =>
    if w0 = 0 ∧ w1 = 0 ∧ w2 = 0 ∧ w3 = 0 ∧ w4 = 0 ∧ w5 = 0xffff then some (v4FromWords w6 w7)
    else if w0 = 0x2002 then some (v4FromWords w1 w2)
    else none
  | _ => none

end Parse

inductive AddressVerdict
  | notIp
  | isPublic (address : List Char)
  | isBlocked (address : List Char) (metadata : Bool)

section Classify

variable (net : Net)

def isMetadataAddress (address : List Char) (family : Family) : Bool :=
  match family with
  | .ipv4 => CLOUD_METADATA_ADDRESSES.any fun m => m.toList = address
  | .ipv6 => CLOUD_METADATA_ADDRESSES.any fun m =>
      net.isIP m.toList = 6 && canonicalIPv6 net.isIP m.toList = canonicalIPv6 net.isIP address

def ownVerdict (raw : List Char) (family : Family) : AddressVerdict :=
  let metadata := isMetadataAddress net raw family
  if metadata || net.check blocked raw family then .isBlocked raw metadata else .isPublic raw

def classifyFrom : Nat → List Char → Option AddressVerdict
  | 0, _ => none
  | fuel + 1, input =>
    let raw := (stripBrackets (Js.trim input)).map Char.toLower
    if raw.contains '%' then
      let bare := raw.takeWhile (· ≠ '%')
      some (if net.isIP bare = 6 then .isBlocked bare false else .notIp)
    else if net.isIP raw = 0 then some .notIp
    else if net.isIP raw = 4 then some (ownVerdict net raw .ipv4)
    else
      match embeddedIPv4 net.isIP raw with
      | some v4 =>
        (classifyFrom fuel v4).map fun inner =>
          match inner with
          | .isBlocked .. => inner
          | _ => ownVerdict net raw .ipv6
      | none => some (ownVerdict net raw .ipv6)

def classifyAddress (input : List Char) : Option AddressVerdict := classifyFrom net 2 input

end Classify

/-! ## Reading an IPv6 address -/

section Read

theorem splitDouble_append {a : List Char} (h : (a ++ [':']).IsChain fun c d => ¬ (c = ':' ∧ d = ':'))
    (b : List Char) : splitDouble (a ++ ':' :: ':' :: b) = a :: splitDouble b := by
  induction a with
  | nil => exact if_pos ⟨rfl, rfl⟩
  | cons c a ih =>
    cases a with
    | nil =>
      have hc : ¬ (c = ':' ∧ ':' = ':') := (isChain_cons_cons.mp h).1
      show splitDouble (c :: ':' :: ':' :: b) = _
      rw [splitDouble, if_neg hc]
      show List.modifyHead _ (splitDouble (':' :: ':' :: b)) = _
      rw [splitDouble, if_pos ⟨rfl, rfl⟩]
      rfl
    | cons d a =>
      obtain ⟨hc, hrest⟩ := isChain_cons_cons.mp h
      show splitDouble (c :: d :: (a ++ ':' :: ':' :: b)) = _
      rw [splitDouble, if_neg hc]
      have ih := ih hrest
      rw [cons_append] at ih
      rw [ih]
      rfl

theorem splitDouble_single {a : List Char} (h : a.IsChain fun c d => ¬ (c = ':' ∧ d = ':')) :
    splitDouble a = [a] := by
  induction a with
  | nil => rfl
  | cons c a ih =>
    cases a with
    | nil => rfl
    | cons d a =>
      obtain ⟨hc, hrest⟩ := isChain_cons_cons.mp h
      rw [splitDouble, if_neg hc, ih hrest]
      rfl

theorem chain_colons (groups : List HexGroup) :
    (colons (Ipv6Text.digits groups) ++ [':']).IsChain fun c d => ¬ (c = ':' ∧ d = ':') := by
  have hpiece : ∀ (l : List Char) (rest : List Char), (∀ c ∈ l, c ≠ ':') →
      (':' :: rest).IsChain (fun c d => ¬ (c = ':' ∧ d = ':')) →
      (l ++ ':' :: rest).IsChain fun c d => ¬ (c = ':' ∧ d = ':') := by
    intro l rest hl hrest
    induction l with
    | nil => exact hrest
    | cons c l ih =>
      have hc := hl c mem_cons_self
      have ih := ih fun d hd => hl d (mem_cons_of_mem c hd)
      rw [cons_append, isChain_cons]
      exact ⟨fun d _ h => hc h.1, ih⟩
  have hcolon (g : HexGroup) : ∀ c ∈ g.digits, c ≠ ':' :=
    fun c hc => (hex_lower (g.hex c hc)).2.2.2.1
  induction groups with
  | nil => exact isChain_singleton _
  | cons g groups ih =>
    cases groups with
    | nil =>
      show (colons [g.digits] ++ [':']).IsChain _
      rw [colons_singleton]
      exact hpiece g.digits [] (hcolon g) (isChain_singleton _)
    | cons next groups =>
      show (colons (g.digits :: next.digits :: Ipv6Text.digits groups) ++ [':']).IsChain _
      rw [colons_cons_cons, append_assoc]
      refine hpiece g.digits _ (hcolon g) ?_
      show (':' :: (colons (next.digits :: Ipv6Text.digits groups) ++ [':'])).IsChain _
      rw [isChain_cons]
      refine ⟨fun d hd h => ?_, ih⟩
      -- the next group is not empty, so no colon follows the colon
      obtain ⟨c, digits, hdigits⟩ := exists_cons_of_ne_nil next.ne_nil
      have hhead : ((colons (next.digits :: Ipv6Text.digits groups)) ++ [':']).head? = some c := by
        cases groups with
        | nil =>
          show (colons [next.digits] ++ [':']).head? = some c
          rw [colons_singleton, hdigits]
          rfl
        | cons last groups =>
          show (colons (next.digits :: last.digits :: _) ++ [':']).head? = some c
          rw [colons_cons_cons, hdigits]
          rfl
      rw [hhead] at hd
      obtain rfl := Option.some.inj hd
      exact hcolon next c (by rw [hdigits]; exact mem_cons_self) h.2

theorem splitHalf_colons (groups : List HexGroup) :
    splitHalf (colons (Ipv6Text.digits groups)) = Ipv6Text.digits groups := by
  cases groups with
  | nil => rfl
  | cons g groups =>
    have hne : colons (Ipv6Text.digits (g :: groups)) ≠ [] := by
      obtain ⟨c, digits, hdigits⟩ := exists_cons_of_ne_nil g.ne_nil
      cases groups with
      | nil =>
        show colons [g.digits] ≠ []
        rw [colons_singleton]
        exact g.ne_nil
      | cons next groups =>
        show colons (g.digits :: next.digits :: _) ≠ []
        rw [colons_cons_cons]
        exact append_ne_nil_of_right_ne_nil _ (cons_ne_nil _ _)
    rw [splitHalf, if_neg hne]
    refine splitOn_intercalate ':' ?_ (cons_ne_nil _ _)
    intro part hpart hcolon
    obtain ⟨h, -, rfl⟩ := mem_map.mp hpart
    exact (hex_lower (h.hex ':' hcolon)).2.2.2.1 rfl

def IsLower (g : HexGroup) : Prop := ∀ c ∈ g.digits, isLowerHex c = true

theorem isLower_lower (g : HexGroup) : IsLower g.lower := by
  intro c hc
  obtain ⟨d, hd, rfl⟩ := mem_map.mp hc
  exact (hex_lower (g.hex d hd)).1

theorem isLower_ofWord (n : Nat) (h : n < 65536) : IsLower (.ofWord n h) := (parseHex_toDigits n).2

theorem wordOf_group {g : HexGroup} (h : IsLower g) : wordOf g.digits = some g.word :=
  if_pos ⟨g.ne_nil, g.atMost, all_eq_true.mpr h⟩

theorem mapM_wordOf {groups : List HexGroup} (h : ∀ g ∈ groups, IsLower g) :
    (Ipv6Text.digits groups).mapM wordOf = some (groups.map HexGroup.word) := by
  induction groups with
  | nil => rfl
  | cons g groups ih =>
    show (g.digits :: Ipv6Text.digits groups).mapM wordOf = _
    rw [mapM_cons, wordOf_group (h g mem_cons_self), ih fun g' hg' => h g' (mem_cons_of_mem g hg')]
    rfl

theorem mapM_wordOf_zeros (n : Nat) :
    (List.replicate n ['0']).mapM wordOf = some (List.replicate n 0) := by
  have hzero : wordOf ['0'] = some 0 := by decide
  induction n with
  | zero => rfl
  | succ n ih =>
    rw [replicate_succ, mapM_cons, hzero, ih]
    rfl

theorem parseGroups_text {t : Ipv6Text} (htail : t.tail = none)
    (hlower : ∀ g ∈ t.head ++ t.rest.getD [], IsLower g) : parseGroups t.text = some t.words := by
  obtain ⟨head, rest, tail, fits⟩ := t
  obtain rfl : tail = none := htail
  have hhead : ∀ g ∈ head, IsLower g := fun g hg => hlower g (mem_append_left _ hg)
  cases rest with
  | none =>
    have hfits : head.length = 8 := fits
    have hsplit : splitDouble (colons (Ipv6Text.digits head)) = [colons (Ipv6Text.digits head)] :=
      splitDouble_single (List.IsChain.left_of_append (chain_colons head))
    show parseGroups (colons (Ipv6Text.digits head ++ [])) = some (head.map HexGroup.word ++ [])
    have hlen : (Ipv6Text.digits head).length = 8 := by rw [Ipv6Text.digits, length_map, hfits]
    rw [append_nil, append_nil, parseGroups, hsplit]
    simp only [length_singleton, headD_cons, splitHalf_colons, hlen]
    simp [mapM_wordOf hhead, hlen]
  | some rest =>
    have hfits : head.length + rest.length ≤ 7 := fits
    have hrest : ∀ g ∈ rest, IsLower g := fun g hg => hlower g (mem_append_right _ hg)
    have hsplit : splitDouble (colons (Ipv6Text.digits head) ++
        ':' :: ':' :: colons (Ipv6Text.digits rest)) =
        [colons (Ipv6Text.digits head), colons (Ipv6Text.digits rest)] := by
      rw [splitDouble_append (chain_colons head),
        splitDouble_single (List.IsChain.left_of_append (chain_colons rest))]
    have hhlen : (Ipv6Text.digits head).length = head.length := length_map _
    have hrlen : (Ipv6Text.digits rest).length = rest.length := length_map _
    show parseGroups (colons (Ipv6Text.digits head) ++
      ':' :: ':' :: colons (Ipv6Text.digits rest ++ [])) =
      some (head.map HexGroup.word ++ List.replicate (8 - head.length - rest.length - 0) 0 ++
        (rest.map HexGroup.word ++ []))
    rw [append_nil, append_nil, Nat.sub_zero, parseGroups, hsplit]
    have hfill : ¬ ((8 : Int) - head.length - rest.length < 1) := by omega
    have hnat : ((8 : Int) - head.length - rest.length).toNat = 8 - head.length - rest.length := by
      omega
    have hgroups : ((Ipv6Text.digits head ++ List.replicate (8 - head.length - rest.length) ['0'] ++
        Ipv6Text.digits rest).length) = 8 := by
      rw [length_append, length_append, length_replicate, hhlen, hrlen]
      omega
    have hmap : (Ipv6Text.digits head ++ List.replicate (8 - head.length - rest.length) ['0'] ++
        Ipv6Text.digits rest).mapM wordOf = some (head.map HexGroup.word ++
          List.replicate (8 - head.length - rest.length) 0 ++ rest.map HexGroup.word) := by
      rw [mapM_append, mapM_append, mapM_wordOf hhead, mapM_wordOf_zeros, mapM_wordOf hrest]
      rfl
    dsimp only [length_cons, length_nil, headD_cons]
    rw [if_neg (by decide)]
    simp only [List.getElem?_cons_succ, List.getElem?_cons_zero, Option.getD_some, if_true,
      true_and, splitHalf_colons, hhlen, hrlen, hnat]
    rw [if_neg hfill, if_neg (by rw [hgroups]; decide), hmap]

/-! ## An IPv4 tail -/

theorem split_tail (front : List Char) {tail : List Char} (h : ':' ∉ tail) :
    (front ++ ':' :: tail).rtakeWhile (· ≠ ':') = tail ∧
      (front ++ ':' :: tail).rdropWhile (· ≠ ':') = front ++ [':'] := by
  have hrev : (front ++ ':' :: tail).reverse = tail.reverse ++ ':' :: front.reverse := by simp
  have htail : ∀ c ∈ tail.reverse, decide (c ≠ ':') = true := by
    intro c hc
    have hmem : c ∈ tail := mem_reverse.mp hc
    exact decide_eq_true fun heq => h (heq ▸ hmem)
  constructor
  · rw [List.rtakeWhile, hrev, takeWhile_append_of_pos htail]
    simp
  · rw [List.rdropWhile, hrev, dropWhile_append_of_pos htail]
    simp

theorem colon_not_mem_quad (q : Quad) : ':' ∉ q.text := by
  intro h
  rcases q.text_chars ':' h with h | h <;> revert h <;> decide

theorem octets_read (q : Quad) :
    (q.text.splitOn '.').map (fun digits => Nat.ofDigitChars 10 digits 0) =
      [q.a.val, q.b.val, q.c.val, q.d.val] := by
  rw [splitOn_quad, map_map]
  show [_, _, _, _] = _
  simp only [Function.comp_apply, decimal_value]

theorem or_octets (a b : Fin 256) : a.val <<< 8 ||| b.val = a.val * 256 + b.val := by
  rw [← Nat.shiftLeft_add_eq_or_of_lt b.isLt a.val, Nat.shiftLeft_eq]

theorem untail_of_none {t : Ipv6Text} (htail : t.tail = none) : t.untail.text = t.text := by
  obtain ⟨head, rest, tail, fits⟩ := t
  obtain rfl : tail = none := htail
  cases rest with
  | none =>
    show colons (Ipv6Text.digits (head ++ []) ++ []) = colons (Ipv6Text.digits head ++ [])
    rw [append_nil, append_nil, append_nil]
  | some rest =>
    show colons (Ipv6Text.digits head) ++ ':' :: ':' :: colons (Ipv6Text.digits (rest ++ []) ++ []) =
      colons (Ipv6Text.digits head) ++ ':' :: ':' :: colons (Ipv6Text.digits rest ++ [])
    rw [append_nil, append_nil, append_nil]

variable {isIP : List Char → Nat}

theorem withoutTail_text (h : IsIp isIP) (t : Ipv6Text) :
    withoutTail isIP t.text = some t.untail.text := by
  cases htail : t.tail with
  | none =>
    have hdot : ¬ (t.text.rtakeWhile (· ≠ ':')).contains '.' = true := by
      intro hdot
      have hmem := (rtakeWhile_suffix (· ≠ ':') t.text).subset (contains_iff_mem.mp hdot)
      rcases Ipv6Text.text_chars htail '.' hmem with hc | hc <;> revert hc <;> decide
    rw [withoutTail]
    simp only
    rw [if_neg hdot, untail_of_none htail]
  | some q =>
    obtain ⟨front, htext, huntail⟩ := Ipv6Text.text_tail htail
    obtain ⟨htake, hdrop⟩ := split_tail front (colon_not_mem_quad q)
    have hdot : q.text.contains '.' = true := by
      rw [contains_iff_mem, Quad.text, Quad.octets]
      simp [intercalate_cons_cons]
    have hfour : ¬ isIP q.text ≠ 4 := not_not.mpr ((h.four q.text).mpr ⟨q, rfl⟩)
    rw [withoutTail, htext, htake, hdrop, huntail]
    simp only
    rw [if_pos hdot, if_neg hfour, octets_read]
    simp only [List.getElem?_cons_zero, List.getElem?_cons_succ, Option.getD_some, or_octets]
    rw [append_assoc]
    rfl

theorem isLower_untail {t : Ipv6Text} (h : ∀ g ∈ t.head ++ t.rest.getD [], IsLower g) :
    ∀ g ∈ t.untail.head ++ t.untail.rest.getD [], IsLower g := by
  have htail (tail : Option Quad) : ∀ g ∈ Ipv6Text.tailGroups tail, IsLower g := by
    intro g hg
    cases tail with
    | none => cases hg
    | some q =>
      rcases mem_cons.mp hg with rfl | hg
      · exact isLower_ofWord _ _
      · rw [mem_singleton.mp hg]
        exact isLower_ofWord _ _
  obtain ⟨head, rest, tail, fits⟩ := t
  intro g hg
  cases rest with
  | none =>
    change g ∈ (head ++ Ipv6Text.tailGroups tail) ++ [] at hg
    rw [append_nil] at hg
    rcases mem_append.mp hg with hg | hg
    · exact h g (mem_append_left _ hg)
    · exact htail tail g hg
  | some rest =>
    change g ∈ head ++ (rest ++ Ipv6Text.tailGroups tail) at hg
    rw [← append_assoc] at hg
    rcases mem_append.mp hg with hg | hg
    · exact h g hg
    · exact htail tail g hg

theorem isLower_groups (t : Ipv6Text) : ∀ g ∈ t.lower.head ++ t.lower.rest.getD [], IsLower g := by
  intro g hg
  obtain ⟨head, rest, tail, fits⟩ := t
  have hmap : ∃ g', g = HexGroup.lower g' := by
    cases rest with
    | none =>
      change g ∈ head.map HexGroup.lower ++ [] at hg
      rw [append_nil] at hg
      obtain ⟨g', -, rfl⟩ := mem_map.mp hg
      exact ⟨g', rfl⟩
    | some rest =>
      change g ∈ head.map HexGroup.lower ++ rest.map HexGroup.lower at hg
      rw [← map_append] at hg
      obtain ⟨g', -, rfl⟩ := mem_map.mp hg
      exact ⟨g', rfl⟩
  obtain ⟨g', rfl⟩ := hmap
  exact isLower_lower g'

theorem parseIPv6_text (h : IsIp isIP) (t : Ipv6Text) : parseIPv6 isIP t.text = some t.words := by
  have hsix : ¬ isIP t.text ≠ 6 :=
    not_not.mpr ((h.six t.text).mpr ⟨t, none, append_nil _⟩)
  have htail : t.lower.untail.tail = none := by
    obtain ⟨head, rest, tail, fits⟩ := t
    cases rest <;> rfl
  rw [parseIPv6, if_neg hsix, Ipv6Text.text_lower, withoutTail_text h]
  show parseGroups t.lower.untail.text = some t.words
  rw [parseGroups_text htail (isLower_untail (isLower_groups t)), Ipv6Text.words_untail,
    Ipv6Text.words_lower]

end Read

/-! ## Embedded addresses -/

section Embedded

/-- An IPv6 address that delivers to an IPv4 address: IPv4-mapped, or 6to4. -/
def Carries (words : List Nat) (q : Quad) : Prop :=
  words = mappedWords q ∨ ∃ rest, words = 0x2002 :: (q.words ++ rest)

theorem quad_words_injective {q r : Quad} (h : q.words = r.words) : q = r := by
  have hwords : q.a.val * 256 + q.b.val = r.a.val * 256 + r.b.val ∧
      q.c.val * 256 + q.d.val = r.c.val * 256 + r.d.val := by
    simpa [Quad.words] using h
  exact Quad.ext (by omega) (by omega) (by omega) (by omega)

theorem carries_unique {words : List Nat} {q r : Quad} (hq : Carries words q)
    (hr : Carries words r) : q = r := by
  refine quad_words_injective ?_
  rcases hq with rfl | ⟨rest, rfl⟩ <;> rcases hr with h | ⟨rest', h⟩
  · exact append_cancel_left h
  · simp [mappedWords] at h
  · simp [mappedWords] at h
  · have hlen : q.words.length = r.words.length := by simp [Quad.words]
    exact (append_inj (List.cons.inj h).2 hlen).1

theorem exists_quad {hi lo : Nat} (hhi : hi < 65536) (hlo : lo < 65536) :
    ∃ q : Quad, q.words = [hi, lo] ∧ v4FromWords hi lo = q.text := by
  have hshift (n : Nat) : n >>> 8 = n / 256 := Nat.shiftRight_eq_div_pow n 8
  have hmask (n : Nat) : n &&& 0xff = n % 256 := Nat.and_two_pow_sub_one_eq_mod n 8
  refine ⟨⟨⟨hi / 256, by omega⟩, ⟨hi % 256, by omega⟩, ⟨lo / 256, by omega⟩, ⟨lo % 256, by omega⟩⟩,
    ?_, ?_⟩
  · show [hi / 256 * 256 + hi % 256, lo / 256 * 256 + lo % 256] = [hi, lo]
    rw [Nat.div_add_mod', Nat.div_add_mod']
  · rw [v4FromWords, hshift, hshift, hmask, hmask]
    rfl

variable {isIP : List Char → Nat}

theorem embeddedIPv4_text (h : IsIp isIP) (t : Ipv6Text) :
    (∃ q, Carries t.words q ∧ embeddedIPv4 isIP t.text = some q.text) ∨
      (embeddedIPv4 isIP t.text = none ∧ ∀ q, ¬ Carries t.words q) := by
  have hlt := t.words_lt
  obtain ⟨w0, w1, w2, w3, w4, w5, w6, w7, hw⟩ : ∃ w0 w1 w2 w3 w4 w5 w6 w7,
      t.words = [w0, w1, w2, w3, w4, w5, w6, w7] := by
    have hlen := t.length_words
    match t.words, hlen with
    | [w0, w1, w2, w3, w4, w5, w6, w7], _ => exact ⟨w0, w1, w2, w3, w4, w5, w6, w7, rfl⟩
  rw [embeddedIPv4, parseIPv6_text h, hw]
  rw [hw] at hlt
  dsimp only
  split_ifs with hmapped hsix
  · obtain ⟨rfl, rfl, rfl, rfl, rfl, rfl⟩ := hmapped
    obtain ⟨q, hq, htext⟩ := exists_quad (hlt w6 (by simp)) (hlt w7 (by simp))
    exact .inl ⟨q, .inl (by rw [mappedWords, hq]; rfl), congrArg some htext⟩
  · obtain rfl := hsix
    obtain ⟨q, hq, htext⟩ := exists_quad (hlt w1 (by simp)) (hlt w2 (by simp))
    exact .inl ⟨q, .inr ⟨[w3, w4, w5, w6, w7], by rw [hq]; rfl⟩, congrArg some htext⟩
  · refine .inr ⟨rfl, fun q hq => ?_⟩
    rcases hq with hq | ⟨rest, hq⟩
    · simp only [mappedWords, Quad.words, cons_append, nil_append, List.cons.injEq] at hq
      exact hmapped ⟨hq.1, hq.2.1, hq.2.2.1, hq.2.2.2.1, hq.2.2.2.2.1, hq.2.2.2.2.2.1⟩
    · exact hsix (List.cons.inj hq).1

end Embedded

/-! ## Ranges of the metadata addresses -/

section Metadata

def InRange4 (q : Quad) : Prop := ∃ rule ∈ blocked, rule.Covers4 q

def InRange6 (words : List Nat) : Prop := ∃ rule ∈ blocked, rule.Covers6 words

/-- An IPv4 address that is refused in IPv6 notation too, or an IPv6 address that is refused. -/
def Refused6 (words : List Nat) : Prop := InRange6 words ∨ ∃ q, Carries words q ∧ InRange4 q

theorem metadata_inRange4 (net : Net) {q : Quad} (h : isMetadataAddress net q.text .ipv4 = true) :
    InRange4 q := by
  have hlocal (c d : Fin 256) : InRange4 ⟨169, 254, c, d⟩ := by
    refine ⟨.subnet "169.254.0.0" 16 .ipv4, by simp [blocked, BLOCKED_IPV4_CIDRS], ⟨169, 254, 0, 0⟩,
      by decide, ?_⟩
    show (((169 * 256 + 254) * 256 + c.val) * 256 + d.val) / 2 ^ 16 =
      (((169 * 256 + 254) * 256 + 0) * 256 + 0) / 2 ^ 16
    omega
  obtain ⟨m, hm, htext⟩ := any_eq_true.mp h
  have htext : m.toList = q.text := of_decide_eq_true htext
  simp only [CLOUD_METADATA_ADDRESSES, mem_cons, not_mem_nil, or_false] at hm
  rcases hm with rfl | rfl | rfl
  · have hquad : (⟨169, 254, 169, 254⟩ : Quad).text = "169.254.169.254".toList := by decide
    rw [← Quad.text_injective (hquad.trans htext)]
    exact hlocal _ _
  · have hquad : (⟨169, 254, 170, 2⟩ : Quad).text = "169.254.170.2".toList := by decide
    rw [← Quad.text_injective (hquad.trans htext)]
    exact hlocal _ _
  · have hcolon : ':' ∈ "fd00:ec2::254".toList := by decide
    rw [htext] at hcolon
    exact absurd hcolon (colon_not_mem_quad q)

def group (digits : String) (h : (digits.toList.all isHex && digits.toList.length ≤ 4 &&
    !digits.toList.isEmpty) = true) : HexGroup where
  digits := digits.toList
  ne_nil := by
    intro hnil
    rw [hnil] at h
    cases h
  atMost := by
    simp only [Bool.and_eq_true, decide_eq_true_eq] at h
    exact h.1.2
  hex := by
    simp only [Bool.and_eq_true] at h
    exact all_eq_true.mp h.1.1

/-- `fd00:ec2::254` -/
def instanceMetadata : Ipv6Text where
  head := [group "fd00" (by decide), group "ec2" (by decide)]
  rest := some [group "254" (by decide)]
  tail := none
  fits := by decide

theorem words_of_canonical {w v : List Nat} (hw : w ≠ []) (hv : v ≠ [])
    (h : colons (w.map (Nat.toDigits 16)) = colons (v.map (Nat.toDigits 16))) : w = v := by
  have hcolon (words : List Nat) : ∀ part ∈ words.map (Nat.toDigits 16), ':' ∉ part := by
    intro part hpart hmem
    obtain ⟨n, -, rfl⟩ := mem_map.mp hpart
    exact absurd ((parseHex_toDigits n).2 ':' hmem) (by decide)
  have hsplit := congrArg (List.splitOn ':') h
  rw [colons, colons, splitOn_intercalate ':' (hcolon w) (by simpa using hw),
    splitOn_intercalate ':' (hcolon v) (by simpa using hv)] at hsplit
  have hinj : Function.Injective (Nat.toDigits 16) := by
    intro m n hmn
    rw [← (parseHex_toDigits m).1, hmn, (parseHex_toDigits n).1]
  exact map_injective_iff.mpr hinj hsplit

theorem metadata_inRange6 (net : Net) {t : Ipv6Text}
    (h : isMetadataAddress net t.text .ipv6 = true) : InRange6 t.words := by
  have hfour {m : String} {q : Quad} (hm : q.text = m.toList) : ¬ net.isIP m.toList = 6 := by
    rw [(net.isIp.four m.toList).mpr ⟨q, hm⟩]
    decide
  obtain ⟨m, hm, hsame⟩ := any_eq_true.mp h
  simp only [Bool.and_eq_true, decide_eq_true_eq] at hsame
  simp only [CLOUD_METADATA_ADDRESSES, mem_cons, not_mem_nil, or_false] at hm
  rcases hm with rfl | rfl | rfl
  · exact absurd hsame.1 (hfour (q := ⟨169, 254, 169, 254⟩) (by decide))
  · exact absurd hsame.1 (hfour (q := ⟨169, 254, 170, 2⟩) (by decide))
  · have htext : "fd00:ec2::254".toList = instanceMetadata.text := by decide
    have hne (t : Ipv6Text) : t.words ≠ [] := by
      intro hnil
      have hlen := t.length_words
      rw [hnil] at hlen
      cases hlen
    have hcanon := hsame.2
    rw [htext, canonicalIPv6, canonicalIPv6, parseIPv6_text net.isIp, parseIPv6_text net.isIp]
      at hcanon
    rw [← words_of_canonical (hne _) (hne t) (Option.some.inj hcanon)]
    refine ⟨.subnet "fc00::" 7 .ipv6, by simp [blocked, BLOCKED_IPV6_CIDRS],
      ⟨[group "fc00" (by decide)], some [], none, by decide⟩, by decide, by decide⟩

end Metadata

/-! ## The verdict -/

section Verdict

inductive Kind
  | notIp
  | isPublic
  | isBlocked (metadata : Bool)

def AddressVerdict.kind : AddressVerdict → Kind
  | .notIp => .notIp
  | .isPublic _ => .isPublic
  | .isBlocked _ metadata => .isBlocked metadata

def AddressVerdict.Says (refused : Prop) : AddressVerdict → Prop
  | .notIp => False
  | .isPublic _ => ¬ refused
  | .isBlocked .. => refused

def Spelled (text input : List Char) : Prop := input = text ∨ input = '[' :: (text ++ [']'])

/-- What the texts of addresses and zones are written with. -/
def isAddressChar (c : Char) : Bool :=
  c.isAlphanum || c == '-' || c == '.' || c == ':' || c == '%'

theorem addressChar_ascii {c : Char} (h : isAddressChar c = true) : c.toNat < 128 := by
  simp only [isAddressChar, Char.isAlphanum, Char.isAlpha, Char.isUpper, Char.isLower, Char.isDigit,
    Bool.or_eq_true, Bool.and_eq_true, decide_eq_true_eq, beq_iff_eq, ge_iff_le,
    UInt32.le_iff_toNat_le] at h
  rcases h with (((((⟨-, h⟩ | ⟨-, h⟩) | ⟨-, h⟩) | rfl) | rfl) | rfl) | rfl
  · change c.toNat ≤ 90 at h
    omega
  · change c.toNat ≤ 122 at h
    omega
  · change c.toNat ≤ 57 at h
    omega
  all_goals decide

theorem addressChar_plain {c : Char} (h : isAddressChar c = true) :
    Js.isSpace c = false ∧ c ≠ '[' := by
  have hall : ∀ n < 128, isAddressChar (Char.ofNat n) = true →
      Js.isSpace (Char.ofNat n) = false ∧ Char.ofNat n ≠ '[' := by decide
  have hc := hall c.toNat (addressChar_ascii h)
  rw [Char.ofNat_toNat] at hc
  exact hc h

theorem hex_addressChar {c : Char} (h : isHex c = true) : isAddressChar c = true :=
  of_hex (by decide) h

theorem raw_spelled {text input : List Char} (hchars : ∀ c ∈ text, isAddressChar c = true)
    (h : Spelled text input) : stripBrackets (Js.trim input) = text := by
  have hspace : ∀ c ∈ text, Js.isSpace c = false := fun c hc => (addressChar_plain (hchars c hc)).1
  rcases h with rfl | rfl
  · rw [Js.trim_of_noSpace hspace, stripBrackets, if_neg]
    rintro ⟨hhead, -⟩
    exact (addressChar_plain (hchars '[' (List.mem_of_mem_head? hhead))).2 rfl
  · have hall : ∀ c ∈ '[' :: (text ++ [']']), Js.isSpace c = false := by
      intro c hc
      rcases mem_cons.mp hc with rfl | hc
      · decide
      · rcases mem_append.mp hc with hc | hc
        · exact hspace c hc
        · rw [mem_singleton.mp hc]
          decide
    rw [Js.trim_of_noSpace hall, stripBrackets, if_pos]
    · show (text ++ [']']).dropLast = text
      rw [dropLast_concat]
    · refine ⟨rfl, ?_⟩
      rw [← cons_append, List.getLast?_concat]

theorem quad_addressChars (q : Quad) : ∀ c ∈ q.text, isAddressChar c = true := by
  intro c hc
  rcases q.text_chars c hc with h | rfl
  · rw [isAddressChar, Char.isAlphanum, h]
    simp
  · decide

theorem forall_text {P : Char → Prop} (hhex : ∀ c, isHex c = true ∨ c = ':' → P c)
    (hquad : ∀ (q : Quad), ∀ c ∈ q.text, P c) (t : Ipv6Text) : ∀ c ∈ t.text, P c := by
  have hplain {t : Ipv6Text} (htail : t.tail = none) : ∀ c ∈ t.text, P c :=
    fun c hc => hhex c (Ipv6Text.text_chars htail c hc)
  cases htail : t.tail with
  | none => exact hplain htail
  | some q =>
    obtain ⟨front, htext, huntail⟩ := Ipv6Text.text_tail htail
    have huntailed : t.untail.tail = none := by
      obtain ⟨head, rest, tail, fits⟩ := t
      cases rest <;> rfl
    intro c hc
    rw [htext] at hc
    rcases mem_append.mp hc with hc | hc
    · refine hplain huntailed c ?_
      rw [huntail]
      exact mem_append_left _ hc
    · rcases mem_cons.mp hc with rfl | hc
      · exact hhex ':' (.inr rfl)
      · exact hquad q c hc

theorem text_addressChars (t : Ipv6Text) : ∀ c ∈ t.text, isAddressChar c = true := by
  refine forall_text (fun c hc => ?_) quad_addressChars t
  rcases hc with h | rfl
  · exact hex_addressChar h
  · decide

theorem percent_not_mem_quad (q : Quad) : '%' ∉ q.text := by
  intro hmem
  rcases q.text_chars '%' hmem with h | h <;> revert h <;> decide

theorem percent_not_mem (t : Ipv6Text) : '%' ∉ t.text := by
  intro hmem
  refine forall_text (P := fun c => c ≠ '%') (fun c hc => ?_) (fun q c hc => ?_) t '%' hmem rfl
  · rintro rfl
    revert hc
    decide
  · rintro rfl
    exact percent_not_mem_quad q hc

variable (net : Net)

variable {input : List Char}

theorem classify_quad {q : Quad} (h : Spelled q.text input) (fuel : Nat) :
    classifyFrom net (fuel + 1) input = some (ownVerdict net q.text .ipv4) := by
  have hpercent : ¬ q.text.contains '%' = true :=
    fun hmem => percent_not_mem_quad q (contains_iff_mem.mp hmem)
  have hfour : net.isIP q.text = 4 := (net.isIp.four q.text).mpr ⟨q, rfl⟩
  rw [classifyFrom, raw_spelled (quad_addressChars q) h, Ipv6Text.toLower_quad]
  simp only
  rw [if_neg hpercent, if_neg (by rw [hfour]; decide), if_pos hfour]

theorem ownVerdict_says {text : List Char} {family : Family} {refused : Prop}
    (hmetadata : isMetadataAddress net text family = true → refused)
    (hcheck : net.check blocked text family = true ↔ refused) :
    (ownVerdict net text family).Says refused := by
  rw [ownVerdict]
  by_cases hmeta : isMetadataAddress net text family = true
  · simp only [hmeta, Bool.true_or, if_true]
    exact hmetadata hmeta
  · by_cases hrange : net.check blocked text family = true
    · simp only [hrange, Bool.or_true, if_true]
      exact hcheck.mp hrange
    · simp only [Bool.not_eq_true _ |>.mp hmeta, Bool.not_eq_true _ |>.mp hrange, Bool.or_self]
      exact fun hin => hrange (hcheck.mpr hin)

theorem ownVerdict_quad (q : Quad) : (ownVerdict net q.text .ipv4).Says (InRange4 q) :=
  ownVerdict_says net (metadata_inRange4 net) (net.checks.four blocked q)

/-- What the list of ranges says of an IPv6 address. -/
def Listed (words : List Nat) : Prop :=
  InRange6 words ∨ ∃ q, words = mappedWords q ∧ InRange4 q

theorem check_listed (t : Ipv6Text) : net.check blocked t.text .ipv6 = true ↔ Listed t.words := by
  rw [net.checks.six]
  constructor
  · rintro ⟨rule, hrule, hsix | ⟨q, hq, hfour⟩⟩
    · exact .inl ⟨rule, hrule, hsix⟩
    · exact .inr ⟨q, hq, rule, hrule, hfour⟩
  · rintro (⟨rule, hrule, hsix⟩ | ⟨q, hq, rule, hrule, hfour⟩)
    · exact ⟨rule, hrule, .inl hsix⟩
    · exact ⟨rule, hrule, .inr ⟨q, hq, hfour⟩⟩

theorem ownVerdict_six (t : Ipv6Text) : (ownVerdict net t.text .ipv6).Says (Listed t.words) :=
  ownVerdict_says net (fun hmeta => .inl (metadata_inRange6 net hmeta)) (check_listed net t)

variable {t : Ipv6Text}

theorem ownVerdict_same {t' : Ipv6Text} (h : t.words = t'.words) :
    (ownVerdict net t.text .ipv6).kind = (ownVerdict net t'.text .ipv6).kind := by
  have hmeta : isMetadataAddress net t.text .ipv6 = isMetadataAddress net t'.text .ipv6 := by
    simp only [isMetadataAddress, canonicalIPv6, parseIPv6_text net.isIp, h]
  have hcheck : net.check blocked t.text .ipv6 = net.check blocked t'.text .ipv6 := by
    rw [Bool.eq_iff_iff, check_listed, check_listed, h]
  rw [ownVerdict, ownVerdict, hmeta, hcheck]
  split <;> rfl

/-- An IPv6 address is judged by the IPv4 address it delivers to, if that is refused, else by
itself. -/
theorem classify_six (h : Spelled t.text input) :
    (∃ q, Carries t.words q ∧ InRange4 q ∧
      classifyAddress net input = some (ownVerdict net q.text .ipv4)) ∨
    ((∀ q, Carries t.words q → ¬ InRange4 q) ∧
      classifyAddress net input = some (ownVerdict net t.lower.text .ipv6)) := by
  have hpercent : ¬ t.lower.text.contains '%' = true :=
    fun hmem => percent_not_mem t.lower (contains_iff_mem.mp hmem)
  have hsix : net.isIP t.lower.text = 6 :=
    (net.isIp.six t.lower.text).mpr ⟨t.lower, none, append_nil _⟩
  rw [classifyAddress, classifyFrom, raw_spelled (text_addressChars t) h, Ipv6Text.text_lower]
  simp only
  rw [if_neg hpercent, if_neg (by rw [hsix]; decide), if_neg (by rw [hsix]; decide)]
  rcases embeddedIPv4_text net.isIp t.lower with ⟨q, hq, hembedded⟩ | ⟨hembedded, hnone⟩
  · rw [Ipv6Text.words_lower] at hq
    rw [hembedded]
    simp only
    rw [classify_quad net (.inl rfl)]
    have hown := ownVerdict_quad net q
    cases hverdict : ownVerdict net q.text .ipv4 with
    | notIp =>
      rw [hverdict] at hown
      exact hown.elim
    | isPublic address =>
      rw [hverdict] at hown
      exact .inr ⟨fun r hr => carries_unique hq hr ▸ hown, rfl⟩
    | isBlocked address metadata =>
      rw [hverdict] at hown
      exact .inl ⟨q, hq, hown, by rw [hverdict]; rfl⟩
  · rw [Ipv6Text.words_lower] at hnone
    rw [hembedded]
    exact .inr ⟨fun q hq => absurd hq (hnone q), rfl⟩

theorem classify_six_says (h : Spelled t.text input) :
    ∃ verdict, classifyAddress net input = some verdict ∧ verdict.Says (Refused6 t.words) := by
  have hiff {verdict : AddressVerdict} {p q : Prop} (hpq : p ↔ q) (hp : verdict.Says p) :
      verdict.Says q := by
    rwa [← propext hpq]
  rcases classify_six net h with ⟨q, hq, hin, hverdict⟩ | ⟨hout, hverdict⟩
  · exact ⟨_, hverdict, hiff ⟨fun h => .inr ⟨q, hq, h⟩, fun _ => hin⟩ (ownVerdict_quad net q)⟩
  · refine ⟨_, hverdict, hiff ⟨?_, ?_⟩ (ownVerdict_six net t.lower)⟩
    · rw [Ipv6Text.words_lower]
      rintro (hin | ⟨q, hq, hin⟩)
      · exact .inl hin
      · exact absurd hin (hout q (.inl hq))
    · rw [Ipv6Text.words_lower]
      rintro (hin | ⟨q, hq, hin⟩)
      · exact .inl hin
      · exact absurd hin (hout q hq)

theorem classify_six_same {t' : Ipv6Text} (hwords : t.words = t'.words) {input input' : List Char}
    (h : Spelled t.text input) (h' : Spelled t'.text input') :
    (classifyAddress net input).map AddressVerdict.kind =
      (classifyAddress net input').map AddressVerdict.kind := by
  rcases classify_six net h with ⟨q, hq, hin, hverdict⟩ | ⟨hout, hverdict⟩ <;>
    rcases classify_six net h' with ⟨q', hq', hin', hverdict'⟩ | ⟨hout', hverdict'⟩
  · rw [hwords] at hq
    rw [hverdict, hverdict', carries_unique hq hq']
  · rw [hwords] at hq
    exact absurd hin (hout' q hq)
  · rw [← hwords] at hq'
    exact absurd hin' (hout q' hq')
  · have hlower : t.lower.words = t'.lower.words := by
      rw [Ipv6Text.words_lower, Ipv6Text.words_lower, hwords]
    rw [hverdict, hverdict']
    exact congrArg some (ownVerdict_same net hlower)

theorem classify_zone {zone : Zone} (h : Spelled (t.text ++ zoneText (some zone)) input) :
    classifyAddress net input = some (.isBlocked t.lower.text false) := by
  have hchars : ∀ c ∈ t.text ++ zoneText (some zone), isAddressChar c = true := by
    intro c hc
    rcases mem_append.mp hc with hc | hc
    · exact text_addressChars t c hc
    · rcases mem_cons.mp hc with rfl | hc
      · decide
      · rw [isAddressChar, zone.allowed c hc, Bool.true_or]
  have hlower : (t.text ++ zoneText (some zone)).map Char.toLower =
      t.lower.text ++ '%' :: zone.name.map Char.toLower := by
    rw [map_append, Ipv6Text.text_lower]
    rfl
  have hmem : (t.lower.text ++ '%' :: zone.name.map Char.toLower).contains '%' = true :=
    contains_iff_mem.mpr (mem_append_right _ mem_cons_self)
  have hbare : (t.lower.text ++ '%' :: zone.name.map Char.toLower).takeWhile (· ≠ '%') =
      t.lower.text := by
    rw [takeWhile_append_of_pos]
    · simp
    · intro c hc
      exact decide_eq_true fun heq => percent_not_mem t.lower (heq ▸ hc)
  have hsix : net.isIP t.lower.text = 6 :=
    (net.isIp.six t.lower.text).mpr ⟨t.lower, none, append_nil _⟩
  rw [classifyAddress, classifyFrom, raw_spelled hchars h, hlower, if_pos hmem, hbare]
  exact congrArg some (if_pos hsix)

theorem classification_by_address :
    (∀ (q : Quad) (input : List Char), Spelled q.text input →
      classifyAddress net input = classifyAddress net q.text ∧
        ∃ verdict, classifyAddress net input = some verdict ∧ verdict.Says (InRange4 q)) ∧
    (∀ (t : Ipv6Text) (input : List Char), Spelled t.text input →
      ∃ verdict, classifyAddress net input = some verdict ∧ verdict.Says (Refused6 t.words)) ∧
    (∀ (t t' : Ipv6Text) (input input' : List Char), t.words = t'.words →
      Spelled t.text input → Spelled t'.text input' →
      (classifyAddress net input).map AddressVerdict.kind =
        (classifyAddress net input').map AddressVerdict.kind) ∧
    ∀ (t : Ipv6Text) (zone : Zone) (input : List Char),
      Spelled (t.text ++ zoneText (some zone)) input →
      (classifyAddress net input).map AddressVerdict.kind = some (.isBlocked false) := by
  refine ⟨fun q input h => ⟨?_, ?_⟩, fun t input h => classify_six_says net h,
    fun t t' input input' hwords h h' => classify_six_same net hwords h h', fun t zone input h => ?_⟩
  · rw [classifyAddress, classifyAddress, classify_quad net h, classify_quad net (.inl rfl)]
  · exact ⟨_, classify_quad net h 1, ownVerdict_quad net q⟩
  · rw [classify_zone net h]
    rfl

/-! ## A network module -/

section Node

theorem colon_mem_text (t : Ipv6Text) : ':' ∈ t.text := by
  obtain ⟨head, rest, tail, fits⟩ := t
  cases rest with
  | some rest => exact mem_append_right _ mem_cons_self
  | none =>
    have hfits : head.length + 2 * tail.toList.length = 8 := fits
    show ':' ∈ colons (Ipv6Text.digits head ++ Ipv6Text.tailText tail)
    match head, hfits with
    | g :: g' :: head, _ =>
      show ':' ∈ colons (g.digits :: g'.digits :: (Ipv6Text.digits head ++ Ipv6Text.tailText tail))
      rw [colons_cons_cons]
      exact mem_append_right _ mem_cons_self
    | [_], hlen | [], hlen => cases tail <;> simp at hlen

open Classical in
noncomputable def isIPOf (text : List Char) : Nat :=
  if ∃ q : Quad, q.text = text then 4
  else if ∃ (t : Ipv6Text) (zone : Option Zone), t.text ++ zoneText zone = text then 6
  else 0

theorem isIp_isIPOf : IsIp isIPOf where
  four := by
    intro text
    rw [isIPOf]
    split_ifs with hfour hsix <;> simp [hfour]
  six := by
    intro text
    rw [isIPOf]
    split_ifs with hfour hsix
    · refine ⟨fun h => absurd h (by decide), ?_⟩
      rintro ⟨t, zone, htext⟩
      obtain ⟨q, rfl⟩ := hfour
      exact absurd (htext ▸ mem_append_left _ (colon_mem_text t)) (colon_not_mem_quad q)
    · simpa using hsix
    · simpa using hsix

theorem words_of_text {t t' : Ipv6Text} (h : t.text = t'.text) : t.words = t'.words := by
  have hparse := parseIPv6_text isIp_isIPOf t
  rw [h, parseIPv6_text isIp_isIPOf t'] at hparse
  exact (Option.some.inj hparse).symm

open Classical in
noncomputable def checkOf (rules : List Rule) (text : List Char) : Family → Bool
  | .ipv4 => decide (∃ q : Quad, q.text = text ∧ ∃ rule ∈ rules, rule.Covers4 q)
  | .ipv6 => decide (∃ t : Ipv6Text, t.text = text ∧
      ∃ rule ∈ rules, rule.Covers6 t.words ∨ ∃ q, t.words = mappedWords q ∧ rule.Covers4 q)

open Classical in
theorem checks_checkOf : Checks checkOf where
  four := by
    intro rules q
    refine decide_eq_true_iff.trans ⟨?_, fun h => ⟨q, rfl, h⟩⟩
    rintro ⟨r, hr, hrule⟩
    rwa [Quad.text_injective hr] at hrule
  six := by
    intro rules t
    refine decide_eq_true_iff.trans ⟨?_, fun h => ⟨t, rfl, h⟩⟩
    rintro ⟨t', ht', hrule⟩
    rwa [words_of_text ht'] at hrule

/-- Node's module, on every text of an address. -/
noncomputable def node : Net := ⟨isIPOf, checkOf, isIp_isIPOf, checks_checkOf⟩

/-- `2606:4700:4700::1111` -/
def resolver : Ipv6Text where
  head := [group "2606" (by decide), group "4700" (by decide), group "4700" (by decide)]
  rest := some [group "1111" (by decide)]
  tail := none
  fits := by decide

theorem parseGroups_of_text {t : Ipv6Text} {addr : String} (h : t.text = addr.toList)
    (hdot : '.' ∉ addr.toList) : parseGroups (addr.toList.map Char.toLower) = some t.words := by
  have hparse := parseIPv6_text isIp_isIPOf t
  have hsix : ¬ isIPOf t.text ≠ 6 :=
    not_not.mpr ((isIp_isIPOf.six t.text).mpr ⟨t, none, append_nil _⟩)
  have hlower : '.' ∉ addr.toList.map Char.toLower := by
    have htail : t.lower.tail = none := by
      cases htail : t.tail with
      | none => exact htail
      | some q =>
        obtain ⟨front, htext, -⟩ := Ipv6Text.text_tail htail
        refine absurd ?_ hdot
        rw [← h, htext, Quad.text, Quad.octets]
        simp [intercalate_cons_cons]
    rw [← h, Ipv6Text.text_lower]
    intro hmem
    rcases Ipv6Text.text_chars htail '.' hmem with hc | hc <;> revert hc <;> decide
  have htail : ¬ ((addr.toList.map Char.toLower).rtakeWhile (· ≠ ':')).contains '.' = true :=
    fun hmem => hlower ((rtakeWhile_suffix _ _).subset (contains_iff_mem.mp hmem))
  rw [parseIPv6, if_neg hsix, h, withoutTail] at hparse
  simp only at hparse
  rwa [if_neg htail] at hparse

theorem resolver_not_refused : ¬ Refused6 resolver.words := by
  have hwords : resolver.words = [0x2606, 0x4700, 0x4700, 0, 0, 0, 0, 0x1111] := by decide
  have hranges : BLOCKED_IPV6_CIDRS.all (fun e => !e.1.toList.contains '.' &&
      (parseGroups (e.1.toList.map Char.toLower)).all fun w =>
        !decide (SamePrefix 128 e.2 (valueOf resolver.words) (valueOf w))) = true := by
    decide +kernel
  rintro (⟨rule, hrule, hcovers⟩ | ⟨q, hq, -⟩)
  · rcases mem_append.mp hrule with hrule | hrule
    · obtain ⟨e, -, rfl⟩ := mem_map.mp hrule
      split at hcovers <;> exact hcovers
    · obtain ⟨e, he, rfl⟩ := mem_map.mp hrule
      have hlies : LiesIn6 e.1 e.2 resolver.words := by
        split at hcovers
        · rename_i hbits
          rw [hbits]
          exact hcovers
        · exact hcovers
      obtain ⟨base, hbase, hsame⟩ := hlies
      have hcheck := all_eq_true.mp hranges e he
      simp only [Bool.and_eq_true, Bool.not_eq_true', contains_eq_mem, decide_eq_false_iff_not]
        at hcheck
      rw [parseGroups_of_text hbase hcheck.1] at hcheck
      exact absurd hsame (by simpa using hcheck.2)
  · rcases hq with hq | ⟨rest, hq⟩ <;> rw [hwords] at hq
    · simp [mappedWords] at hq
    · simp at hq

/-- `1` -/
def zoneOne : Zone := ⟨['1'], by decide, forall_mem_singleton.mpr (by decide)⟩

/-- A public address is blocked once a zone stands behind it. -/
theorem zone_is_blocked :
    node.isIP "2606:4700:4700::1111".toList = 6 ∧ node.isIP "2606:4700:4700::1111%1".toList = 6 ∧
      ¬ Refused6 resolver.words ∧ resolver.text = "2606:4700:4700::1111".toList ∧
      (classifyAddress node "2606:4700:4700::1111".toList).map AddressVerdict.kind =
        some .isPublic ∧
      (classifyAddress node "2606:4700:4700::1111%1".toList).map AddressVerdict.kind =
        some (.isBlocked false) := by
  have htext : resolver.text = "2606:4700:4700::1111".toList := by decide +kernel
  have hzone : resolver.text ++ zoneText (some zoneOne) = "2606:4700:4700::1111%1".toList := by
    decide +kernel
  obtain ⟨verdict, hverdict, hsays⟩ := classify_six_says node (.inl rfl : Spelled resolver.text _)
  refine ⟨(isIp_isIPOf.six _).mpr ⟨resolver, none, (append_nil _).trans htext⟩,
    (isIp_isIPOf.six _).mpr ⟨resolver, some zoneOne, hzone⟩, resolver_not_refused, htext, ?_, ?_⟩
  · rw [← htext, hverdict]
    cases verdict with
    | notIp => exact hsays.elim
    | isPublic address => rfl
    | isBlocked address metadata => exact absurd hsays resolver_not_refused
  · rw [← hzone, classify_zone node (.inl rfl)]
    rfl

/-- The resolver in brackets is public, as it is without them. -/
theorem resolver_is_public :
    Spelled resolver.text "[2606:4700:4700::1111]".toList ∧
      ∃ verdict, classifyAddress node "[2606:4700:4700::1111]".toList = some verdict ∧
        verdict.Says (Refused6 resolver.words) := by
  have hspelled : Spelled resolver.text "[2606:4700:4700::1111]".toList := .inr (by decide)
  exact ⟨hspelled, (classification_by_address node).2.1 resolver _ hspelled⟩

end Node

end Verdict

end Almyty.Security.IpClassification
