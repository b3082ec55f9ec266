/-
The flattened device tree format, version 17.

A blob is a header of ten big-endian words, a memory reserve map, a structure block and a strings block. The structure block
is a sequence of tokens, each padded to 4 bytes; a property names itself by an offset into the strings block. `decode` reads a
blob: tokens first, then events with the names looked up, then the tree.
Results:
- `tokens_encode`: a sequence of tokens reads back from its bytes;
- `nameAt_append`, `nameAt_mono`: a name interned in the strings block is found at its offset, whatever comes after it;
- `build_events`, `itemsEvents_injective`: the tree built from events lists them again in order, and no other does;
- `resolve_tokensOf`, `readTree_tokensOf`: the tokens written for events say them again, and the tree read from them holds
  what they say.
-/
import Mathlib.Data.BitVec
import Mathlib.Tactic.Common
import RiscvEmu.Lib.Buffer
import RiscvEmu.Lib.Ranges

namespace Dtb

open Buffer Ranges

abbrev Octets := List (BitVec 8)

/-! ## Words and padding -/

def be32 (x : BitVec 32) : Octets := [x.extractLsb' 24 8, x.extractLsb' 16 8, x.extractLsb' 8 8, x.extractLsb' 0 8]

/-- the first big-endian word, and what follows it -/
def read32 : Octets → Option (BitVec 32 × Octets)
  | a :: b :: c :: d :: rest => some (a ++ b ++ c ++ d, rest)
  | _ => none

@[simp] theorem be32_length (x : BitVec 32) : (be32 x).length = 4 := rfl

theorem read32_be32 (x : BitVec 32) (rest : Octets) : read32 (be32 x ++ rest) = some (x, rest) := by
  have h16 : x.extractLsb' 24 8 ++ x.extractLsb' 16 8 = x.extractLsb' 16 16 :=
    BitVec.extractLsb'_append_extractLsb'_eq_extractLsb' rfl
  have h8 : x.extractLsb' 16 16 ++ x.extractLsb' 8 8 = x.extractLsb' 8 24 :=
    BitVec.extractLsb'_append_extractLsb'_eq_extractLsb' rfl
  have h0 : x.extractLsb' 8 24 ++ x.extractLsb' 0 8 = x.extractLsb' 0 32 :=
    BitVec.extractLsb'_append_extractLsb'_eq_extractLsb' rfl
  have hx : x.extractLsb' 24 8 ++ x.extractLsb' 16 8 ++ x.extractLsb' 8 8 ++ x.extractLsb' 0 8 = x := by
    rw [h16, h8, h0]
    exact BitVec.extractLsb'_eq_self
  exact congrArg (fun y => some (y, rest)) hx

/-- the first n words -/
def words : ℕ → Octets → Option (List (BitVec 32))
  | 0, _ => some []
  | n + 1, bs => (read32 bs).bind fun (w, bs) => (words n bs).map (w :: ·)

theorem words_flatMap (ws : List (BitVec 32)) (rest : Octets) :
    words ws.length (ws.flatMap be32 ++ rest) = some ws := by
  induction ws with
  | nil => rfl
  | cons w ws ih =>
    rw [List.flatMap_cons, List.append_assoc, List.length_cons, words, read32_be32, Option.bind_some]
    exact congrArg (Option.map (w :: ·)) ih

/-- n, rounded up to a multiple of 4 -/
def padded (n : ℕ) : ℕ := (n + 3) / 4 * 4

/-- l, filled up with zeros -/
def pad4 (l : Octets) : Octets := l ++ List.replicate (padded l.length - l.length) 0

@[simp] theorem pad4_length (l : Octets) : (pad4 l).length = padded l.length := by
  unfold pad4 padded
  rw [List.length_append, List.length_replicate]
  omega

/-- only the tail needs filling up -/
theorem pad4_append {st : Octets} (h : 4 ∣ st.length) (l : Octets) : pad4 (st ++ l) = st ++ pad4 l := by
  have hlen : padded (st ++ l).length - (st ++ l).length = padded l.length - l.length := by
    rw [List.length_append, padded, padded]
    omega
  rw [pad4, pad4, hlen, List.append_assoc]

theorem pad4_of_dvd {l : Octets} (h : 4 ∣ l.length) : pad4 l = l := by
  have hnone : padded l.length - l.length = 0 := by
    rw [padded]
    omega
  rw [pad4, hnone, List.replicate_zero, List.append_nil]

/-! ## Tokens -/

inductive Token where
  | beginNode (name : Octets)
  | endNode
  | prop (nameoff : BitVec 32) (value : Octets)
deriving DecidableEq

def beginNodeTag : BitVec 32 := 1
def endNodeTag : BitVec 32 := 2
def propTag : BitVec 32 := 3
def nopTag : BitVec 32 := 4
def endTag : BitVec 32 := 9

def Token.encode : Token → Octets
  | .beginNode name => be32 beginNodeTag ++ pad4 (name ++ [0])
  | .endNode => be32 endNodeTag
  | .prop nameoff value => be32 propTag ++ be32 (BitVec.ofNat 32 value.length) ++ be32 nameoff ++ pad4 value

/-- the bytes up to the first zero, if there is one -/
def cstring (bs : Octets) : Option Octets :=
  let s := bs.takeWhile (· ≠ 0)
  if s.length < bs.length then some s else none

/-- the tokens of a structure block; fuel for one per word is enough -/
def tokens : ℕ → Octets → Option (List Token)
  | 0, _ => none
  | n + 1, bs =>
    (read32 bs).bind fun (tag, bs) =>
      if tag = beginNodeTag then
        (cstring bs).bind fun name => (tokens n (bs.drop (padded (name.length + 1)))).map (.beginNode name :: ·)
      else if tag = endNodeTag then (tokens n bs).map (.endNode :: ·)
      else if tag = propTag then
        (read32 bs).bind fun (len, bs) => (read32 bs).bind fun (nameoff, bs) =>
          if len.toNat ≤ bs.length then
            (tokens n (bs.drop (padded len.toNat))).map (.prop nameoff (bs.take len.toNat) :: ·)
          else none
      else if tag = nopTag then tokens n bs
      else if tag = endTag ∧ bs = [] then some []
      else none

/-- a token the format can hold -/
def Token.WellFormed : Token → Prop
  | .beginNode name => 0 ∉ name
  | .endNode => True
  | .prop _ value => value.length < 2 ^ 32

theorem cstring_append {s : Octets} (h : 0 ∉ s) (rest : Octets) : cstring (s ++ 0 :: rest) = some s := by
  have htake : (s ++ 0 :: rest).takeWhile (· ≠ 0) = s := by
    rw [List.takeWhile_append_of_pos fun b hb => by simpa using ne_of_mem_of_not_mem hb h]
    simp
  unfold cstring
  simp only [htake]
  rw [if_pos (by simp)]

theorem drop_pad4 (l rest : Octets) : (pad4 l ++ rest).drop (padded l.length) = rest := by
  rw [← pad4_length, List.drop_left]

/-- one token reads back -/
theorem tokens_cons {t : Token} (h : t.WellFormed) (n : ℕ) (rest : Octets) :
    tokens (n + 1) (t.encode ++ rest) = (tokens n rest).map (t :: ·) := by
  cases t with
  | beginNode name =>
    have hname : cstring (pad4 (name ++ [0]) ++ rest) = some name := by
      have hsplit : pad4 (name ++ [0]) ++ rest =
          name ++ 0 :: (List.replicate (padded (name ++ [0]).length - (name ++ [0]).length) 0 ++ rest) := by
        simp [pad4]
      rw [hsplit]
      exact cstring_append h _
    have hdrop := drop_pad4 (name ++ [0]) rest
    rw [List.length_append, List.length_singleton] at hdrop
    simp only [Token.encode, tokens, List.append_assoc, read32_be32, Option.bind_some, if_true, hname, hdrop]
  | endNode =>
    have hne : endNodeTag ≠ beginNodeTag := by decide
    simp only [Token.encode, tokens, read32_be32, Option.bind_some, if_neg hne, if_true]
  | prop nameoff value =>
    have hne : propTag ≠ beginNodeTag := by decide
    have hne' : propTag ≠ endNodeTag := by decide
    have hlen : (BitVec.ofNat 32 value.length).toNat = value.length := by
      rw [BitVec.toNat_ofNat]
      exact Nat.mod_eq_of_lt h
    have hle : value.length ≤ (pad4 value ++ rest).length := by
      rw [List.length_append, pad4_length, padded]
      omega
    have htake : (pad4 value ++ rest).take value.length = value := by
      rw [pad4, List.append_assoc, List.take_left]
    simp only [Token.encode, tokens, List.append_assoc, read32_be32, Option.bind_some, if_neg hne, if_neg hne', if_true,
      hlen, if_pos hle, htake, drop_pad4]

/-- **A sequence of tokens reads back.** -/
theorem tokens_encode {ts : List Token} (h : ∀ t ∈ ts, t.WellFormed) {n : ℕ} (hn : ts.length < n) :
    tokens n (ts.flatMap Token.encode ++ be32 endTag) = some ts := by
  induction ts generalizing n with
  | nil =>
    obtain ⟨m, rfl⟩ : ∃ m, n = m + 1 := ⟨n - 1, by simp at hn; omega⟩
    rfl
  | cons t ts ih =>
    obtain ⟨m, rfl⟩ : ∃ m, n = m + 1 := ⟨n - 1, by simp at hn; omega⟩
    have hrest := ih (fun u hu => h u (List.mem_cons_of_mem _ hu)) (by simp at hn; omega : ts.length < m)
    rw [List.flatMap_cons, List.append_assoc, tokens_cons (h t List.mem_cons_self), hrest]
    rfl

/-! ## Names and events -/

/-- what a structure block says, with its names looked up -/
inductive Event where
  | push (name : Octets)
  | pop
  | prop (name value : Octets)
deriving DecidableEq

/-- the name at an offset of the strings block -/
def nameAt (strings : Octets) (off : BitVec 32) : Option Octets := cstring (strings.drop off.toNat)

theorem nameAt_append {pre s : Octets} {off : BitVec 32} (h : 0 ∉ s) (hoff : off.toNat = pre.length) (post : Octets) :
    nameAt (pre ++ s ++ 0 :: post) off = some s := by
  rw [nameAt, hoff, List.append_assoc, List.drop_left]
  exact cstring_append h post

/-- a name that was found is found in a longer block -/
theorem nameAt_mono {strings s : Octets} {off : BitVec 32} (h : nameAt strings off = some s) (more : Octets) :
    nameAt (strings ++ more) off = some s := by
  unfold nameAt cstring at h ⊢
  dsimp only at h ⊢
  split_ifs at h with hlt
  have hs : (strings.drop off.toNat).takeWhile (· ≠ 0) = s := by simpa using h
  have hdrop : (strings ++ more).drop off.toNat = strings.drop off.toNat ++ more := by
    apply List.drop_append_of_le_length
    by_contra hgt
    rw [List.drop_eq_nil_of_le (by omega)] at hlt
    simp at hlt
  have htake : ((strings ++ more).drop off.toNat).takeWhile (· ≠ 0) = s := by
    rw [hdrop, List.takeWhile_append, if_neg (by omega), hs]
  rw [htake, if_pos]
  rw [hs] at hlt
  rw [hdrop, List.length_append]
  omega

def resolve (strings : Octets) : Token → Option Event
  | .beginNode name => some (.push name)
  | .endNode => some .pop
  | .prop nameoff value => (nameAt strings nameoff).map (.prop · value)

theorem resolve_mono {strings : Octets} {t : Token} {e : Event} (h : resolve strings t = some e) (more : Octets) :
    resolve (strings ++ more) t = some e := by
  cases t with
  | beginNode name => exact h
  | endNode => exact h
  | prop nameoff value =>
    obtain ⟨name, hname, rfl⟩ := Option.map_eq_some_iff.mp h
    exact Option.map_eq_some_iff.mpr ⟨name, nameAt_mono hname more, rfl⟩

/-! ## Trees -/

/-- a property, or a node with what it holds -/
inductive Item where
  | prop (name value : Octets)
  | node (name : Octets) (items : List Item)

mutual

/-- what a structure block says of an item -/
def Item.events : Item → List Event
  | .prop name value => [.prop name value]
  | .node name items => .push name :: (itemsEvents items ++ [.pop])

def itemsEvents : List Item → List Event
  | [] => []
  | i :: is => i.events ++ itemsEvents is

end

theorem itemsEvents_append (is js : List Item) : itemsEvents (is ++ js) = itemsEvents is ++ itemsEvents js := by
  induction is with
  | nil => rw [List.nil_append, itemsEvents, List.nil_append]
  | cons i is ih => rw [List.cons_append, itemsEvents, itemsEvents, ih, List.append_assoc]

@[simp] theorem itemsEvents_concat (is : List Item) (i : Item) : itemsEvents (is ++ [i]) = itemsEvents is ++ i.events := by
  rw [itemsEvents_append, itemsEvents, itemsEvents, List.append_nil]

/-- a node that is still open, with what it holds so far -/
structure Frame where
  name : Octets
  items : List Item

/-- the tree that events say, from the open nodes on, innermost first; nothing follows the outermost node -/
def build : List Frame → List Event → Option Item
  | stack, .push name :: es => build (⟨name, []⟩ :: stack) es
  | f :: stack, .prop name value :: es => build (⟨f.name, f.items ++ [.prop name value]⟩ :: stack) es
  | f :: g :: stack, .pop :: es => build (⟨g.name, g.items ++ [.node f.name f.items]⟩ :: stack) es
  | [f], .pop :: es => if es = [] then some (.node f.name f.items) else none
  | [], _ :: _ => none
  | _, [] => none

/-- the depth events lead to, when none closes a node that is not open -/
def depthAfter : ℕ → List Event → Option ℕ
  | d, [] => some d
  | d, .push _ :: es => depthAfter (d + 1) es
  | d, .prop _ _ :: es => depthAfter d es
  | d + 1, .pop :: es => depthAfter d es
  | 0, .pop :: _ => none

/-- what has been said of the open nodes -/
def openEvents : List Frame → List Event
  | [] => []
  | f :: stack => openEvents stack ++ .push f.name :: itemsEvents f.items

/-- **The tree built from events lists them again in order.** -/
theorem build_events {stack : List Frame} {d : ℕ} {es : List Event} (hd : stack.length = d + 1)
    (h : depthAfter d es = some 0) :
    ∃ root, build stack (es ++ [.pop]) = some root ∧ root.events = openEvents stack ++ es ++ [.pop] := by
  induction es generalizing stack d with
  | nil =>
    obtain rfl : d = 0 := by simpa [depthAfter] using h
    obtain ⟨f, rfl⟩ := List.length_eq_one_iff.mp hd
    exact ⟨.node f.name f.items, rfl, by simp [Item.events, openEvents]⟩
  | cons e es ih =>
    cases e with
    | push name =>
      obtain ⟨root, hroot, hevents⟩ := @ih (⟨name, []⟩ :: stack) (d + 1) (congrArg (· + 1) hd) h
      refine ⟨root, ?_, ?_⟩
      · cases stack <;> exact hroot
      · simpa [openEvents, itemsEvents] using hevents
    | prop name value =>
      cases stack with
      | nil => cases hd
      | cons f stack =>
        obtain ⟨root, hroot, hevents⟩ := @ih (⟨f.name, f.items ++ [.prop name value]⟩ :: stack) d hd h
        refine ⟨root, hroot, ?_⟩
        simpa [openEvents, Item.events] using hevents
    | pop =>
      cases d with
      | zero => cases h
      | succ d =>
        cases stack with
        | nil => cases hd
        | cons f stack =>
          cases stack with
          | nil => cases hd
          | cons g stack =>
            obtain ⟨root, hroot, hevents⟩ := @ih (⟨g.name, g.items ++ [.node f.name f.items]⟩ :: stack) d
              (Nat.succ.inj hd) h
            refine ⟨root, hroot, ?_⟩
            simpa [openEvents, Item.events] using hevents

mutual

/-- an item's events add the item to the innermost open node -/
theorem build_item (i : Item) (f : Frame) (stack : List Frame) (es : List Event) :
    build (f :: stack) (i.events ++ es) = build (⟨f.name, f.items ++ [i]⟩ :: stack) es := by
  cases i with
  | prop name value => rfl
  | node name items =>
    rw [Item.events, List.cons_append, List.append_assoc, build]
    exact build_items items ⟨name, []⟩ (f :: stack) (.pop :: es)

theorem build_items (is : List Item) (f : Frame) (stack : List Frame) (es : List Event) :
    build (f :: stack) (itemsEvents is ++ es) = build (⟨f.name, f.items ++ is⟩ :: stack) es := by
  cases is with
  | nil => rw [itemsEvents, List.nil_append, List.append_nil]
  | cons i is =>
    have htail := build_items is ⟨f.name, f.items ++ [i]⟩ stack es
    rw [List.append_assoc] at htail
    rw [itemsEvents, List.append_assoc, build_item i f stack (itemsEvents is ++ es)]
    exact htail

end

/-- events say which items they list -/
theorem itemsEvents_injective {is js : List Item} (h : itemsEvents is = itemsEvents js) : is = js := by
  have hbuild : ∀ ks : List Item, build [⟨[], []⟩] (itemsEvents ks ++ [.pop]) = some (.node [] ks) := fun ks =>
    build_items ks ⟨[], []⟩ [] [.pop]
  have his := hbuild is
  rw [h, hbuild js] at his
  exact (Item.node.inj (Option.some.inj his)).2.symm

/-! ## Writing a tree -/

/-- the token of an event, when a property finds its name at off -/
def Event.token (off : BitVec 32) : Event → Token
  | .push name => .beginNode name
  | .pop => .endNode
  | .prop _ value => .prop off value

/-- what an event adds to the strings block -/
def Event.strings : Event → Octets
  | .push _ => []
  | .pop => []
  | .prop name _ => name ++ [0]

/-- an event the format can hold -/
def Event.WellFormed : Event → Prop
  | .push name => 0 ∉ name
  | .pop => True
  | .prop name value => 0 ∉ name ∧ value.length < 2 ^ 32

/-- the tokens of events, each name interned behind the strings there are -/
def tokensOf (strings : Octets) : List Event → List Token
  | [] => []
  | e :: es => e.token (BitVec.ofNat 32 strings.length) :: tokensOf (strings ++ e.strings) es

/-- the size of an event in the structure block -/
def Event.size : Event → ℕ
  | .push name => 4 + padded (name.length + 1)
  | .pop => 4
  | .prop _ value => 12 + padded value.length

@[simp] theorem Event.encode_token_length (off : BitVec 32) (e : Event) : (e.token off).encode.length = e.size := by
  cases e with
  | push name => simp [Event.token, Token.encode, Event.size]
  | pop => rfl
  | prop name value => simp [Event.token, Token.encode, Event.size]; omega

theorem Event.four_dvd_size (e : Event) : 4 ∣ e.size := by
  cases e <;> simp only [Event.size, padded] <;> omega

theorem Event.token_wellFormed {e : Event} (h : e.WellFormed) (off : BitVec 32) : (e.token off).WellFormed := by
  cases e with
  | push name => exact h
  | pop => trivial
  | prop name value => exact h.2

theorem tokensOf_append (strings : Octets) (es fs : List Event) :
    tokensOf strings (es ++ fs) = tokensOf strings es ++ tokensOf (strings ++ es.flatMap Event.strings) fs := by
  induction es generalizing strings with
  | nil => rw [List.nil_append, List.flatMap_nil, List.append_nil]; rfl
  | cons e es ih => rw [List.cons_append, tokensOf, tokensOf, ih, List.flatMap_cons, List.append_assoc, List.cons_append]

theorem tokensOf_wellFormed {strings : Octets} {es : List Event} (h : ∀ e ∈ es, e.WellFormed) :
    ∀ t ∈ tokensOf strings es, t.WellFormed := by
  induction es generalizing strings with
  | nil => intro t ht; cases ht
  | cons e es ih =>
    intro t ht
    rcases List.mem_cons.mp ht with rfl | ht
    · exact Event.token_wellFormed (h e List.mem_cons_self) _
    · exact ih (fun e he => h e (List.mem_cons_of_mem _ he)) t ht

theorem resolve_token {strings : Octets} {e : Event} (h : e.WellFormed) (hlen : strings.length < 2 ^ 32) :
    resolve (strings ++ e.strings) (e.token (BitVec.ofNat 32 strings.length)) = some e := by
  cases e with
  | push name => rfl
  | pop => rfl
  | prop name value =>
    have hoff : (BitVec.ofNat 32 strings.length).toNat = strings.length := by
      rw [BitVec.toNat_ofNat, Nat.mod_eq_of_lt hlen]
    have hname := nameAt_append h.1 hoff []
    rw [List.append_assoc] at hname
    exact Option.map_eq_some_iff.mpr ⟨name, hname, rfl⟩

/-- **The tokens of events say them again, names included.** -/
theorem resolve_tokensOf (strings : Octets) {es : List Event} (h : ∀ e ∈ es, e.WellFormed)
    (hlen : (strings ++ es.flatMap Event.strings).length < 2 ^ 32) :
    (tokensOf strings es).mapM (resolve (strings ++ es.flatMap Event.strings)) = some es := by
  induction es generalizing strings with
  | nil => rfl
  | cons e es ih =>
    have htoken : resolve (strings ++ e.strings) (e.token (BitVec.ofNat 32 strings.length)) = some e :=
      resolve_token (h e List.mem_cons_self) (by rw [List.length_append] at hlen; omega)
    have hhead := resolve_mono htoken (es.flatMap Event.strings)
    have hassoc : strings ++ (e :: es).flatMap Event.strings = strings ++ e.strings ++ es.flatMap Event.strings := by
      rw [List.flatMap_cons, List.append_assoc]
    rw [hassoc] at hlen ⊢
    rw [tokensOf, List.mapM_cons, hhead, ih _ (fun e he => h e (List.mem_cons_of_mem _ he)) hlen]
    rfl

theorem length_le_encode (ts : List Token) : ts.length ≤ (ts.flatMap Token.encode).length := by
  induction ts with
  | nil => exact Nat.le_refl 0
  | cons t ts ih =>
    have hpos : 1 ≤ t.encode.length := by
      cases t with
      | beginNode name => rw [Token.encode, List.length_append, be32_length]; omega
      | endNode => decide
      | prop nameoff value => simp only [Token.encode, List.length_append, be32_length]; omega
    rw [List.flatMap_cons, List.length_append, List.length_cons]
    omega

/-- the tree of a structure block and its strings block -/
def readTree (st strings : Octets) : Option Item :=
  (tokens (st.length + 1) st).bind fun ts => (ts.mapM (resolve strings)).bind (build [])

/-- what the root node holds is read back from the blocks written for it -/
theorem readTree_tokensOf {es : List Event} (h : ∀ e ∈ es, e.WellFormed) (hdepth : depthAfter 0 es = some 0)
    (hlen : (es.flatMap Event.strings).length < 2 ^ 32) :
    ∃ items, itemsEvents items = es ∧
      readTree ((tokensOf [] (.push [] :: (es ++ [.pop]))).flatMap Token.encode ++ be32 endTag)
        (es.flatMap Event.strings) = some (.node [] items) := by
  have hwf : ∀ e ∈ (.push [] :: (es ++ [.pop]) : List Event), e.WellFormed := by
    intro e he
    simp only [List.mem_cons, List.mem_append, List.not_mem_nil, or_false] at he
    rcases he with rfl | he | rfl
    · exact List.not_mem_nil
    · exact h e he
    · trivial
  have hstrings : (.push [] :: (es ++ [.pop]) : List Event).flatMap Event.strings = es.flatMap Event.strings := by
    simp [Event.strings]
  have hresolve := resolve_tokensOf [] hwf (by rw [List.nil_append, hstrings]; exact hlen)
  rw [List.nil_append, hstrings] at hresolve
  obtain ⟨root, hroot, hevents⟩ := build_events (rfl : [(⟨[], []⟩ : Frame)].length = 0 + 1) hdepth
  have hread : readTree ((tokensOf [] (.push [] :: (es ++ [.pop]))).flatMap Token.encode ++ be32 endTag)
      (es.flatMap Event.strings) = some root := by
    unfold readTree
    rw [tokens_encode (tokensOf_wellFormed hwf), Option.bind_some, hresolve, Option.bind_some]
    · exact hroot
    · have hle := length_le_encode (tokensOf [] (.push [] :: (es ++ [.pop])))
      rw [List.length_append]
      omega
  cases root with
  | prop name value =>
    simp [Item.events, openEvents] at hevents
  | node name items =>
    simp only [Item.events, openEvents, itemsEvents, List.nil_append, List.cons_append, List.cons.injEq,
      Event.push.injEq, List.append_cancel_right_eq] at hevents
    obtain ⟨rfl, hitems⟩ := hevents
    exact ⟨items, hitems, hread⟩

/-! ## Blobs -/

structure Header where
  totalsize : ℕ
  offStruct : ℕ
  offStrings : ℕ
  offRsvmap : ℕ
  bootCpuid : BitVec 32
  sizeStrings : ℕ
  sizeStruct : ℕ

def magic : BitVec 32 := 0xd00dfeed

/-- the header of a blob a reader of version 17 takes -/
def header (bs : Octets) : Option Header :=
  (words 10 bs).bind fun
    | [m, totalsize, offStruct, offStrings, offRsvmap, version, lastComp, bootCpuid, sizeStrings, sizeStruct] =>
      if m = magic ∧ version = 17 ∧ lastComp.toNat ≤ 17 then
        some ⟨totalsize.toNat, offStruct.toNat, offStrings.toNat, offRsvmap.toNat, bootCpuid, sizeStrings.toNat,
          sizeStruct.toNat⟩
      else none
    | _ => none

/-- the entries of a reserve map, up to the one of zeros; fuel for one per entry is enough -/
def rsvmap : ℕ → Octets → Option (List (BitVec 64 × BitVec 64))
  | 0, _ => none
  | n + 1, bs =>
    (words 4 bs).bind fun
      | [ahi, alo, shi, slo] =>
        if ahi = 0 ∧ alo = 0 ∧ shi = 0 ∧ slo = 0 then some []
        else (rsvmap n (bs.drop 16)).map ((ahi ++ alo, shi ++ slo) :: ·)
      | _ => none

/-- n bytes from off on, if they are there -/
def slice (bs : Octets) (off n : ℕ) : Option Octets :=
  if off + n ≤ bs.length then some ((bs.drop off).take n) else none

structure Blob where
  header : Header
  reserved : List (BitVec 64 × BitVec 64)
  root : Item

/-- the header, the reserve map with its last entry, the structure block and the strings block -/
def Blob.ranges (b : Blob) : List Range :=
  [⟨0, 40⟩, ⟨b.header.offRsvmap, 16 * (b.reserved.length + 1)⟩, ⟨b.header.offStruct, b.header.sizeStruct⟩,
    ⟨b.header.offStrings, b.header.sizeStrings⟩]

theorem slice_region {buf : ℕ → BitVec 8} {size off n : ℕ} (h : off + n ≤ size) :
    slice (region buf 0 size) off n = some (region buf off n) := by
  rw [slice, region_length, if_pos h, drop_region (by omega), take_region (by omega), Nat.zero_add]

/-- reads a blob that fills bs -/
def decode (bs : Octets) : Option Blob :=
  (header bs).bind fun h =>
    if h.totalsize = bs.length ∧ h.offStruct % 4 = 0 ∧ h.sizeStruct % 4 = 0 ∧ h.offRsvmap % 8 = 0 then
      (rsvmap (bs.length + 1) (bs.drop h.offRsvmap)).bind fun reserved =>
        (slice bs h.offStruct h.sizeStruct).bind fun st =>
          (slice bs h.offStrings h.sizeStrings).bind fun strings =>
            (readTree st strings).map fun root => ⟨h, reserved, root⟩
    else none

end Dtb
