/-
The options of the command line: what main takes, and how it is written.

An argument FILE@HEX is split at its last '@', so a file name may hold any characters. Results:
- `pushExtraLoad_iff`: the arguments of --load, and the slot each adds;
- `parseHex_hexText`: an address printed with 0x%x is read back;
- `take_formed`: whatever the options, a slot has a file, and an address is the default unless its option is there;
- `options_round_trip`: any options of that form, written out, are read back.
-/
import Mathlib.Data.Nat.Digits.Lemmas
import RiscvEmu.Loader

namespace RiscvEmu

/-! ## The separator -/

section
variable {arg file addr : Chars}

theorem strrchrAt_append (file : Chars) (haddr : 64 ∉ addr) : strrchrAt (file ++ 64 :: addr) = some (file, addr) := by
  have hafter : ((file ++ 64 :: addr).reverse.takeWhile (· ≠ 64)).reverse = addr := by
    have hrev : (file ++ 64 :: addr).reverse = addr.reverse ++ 64 :: file.reverse := by simp
    rw [hrev, List.takeWhile_append_of_pos]
    · simp
    · intro c hc
      exact decide_eq_true fun h => haddr (h ▸ List.mem_reverse.1 hc)
  simp only [strrchrAt, hafter]
  have hlen : (file ++ 64 :: addr).length - addr.length - 1 = file.length := by
    rw [List.length_append, List.length_cons]
    omega
  rw [if_pos (by rw [List.length_append, List.length_cons]; omega), hlen, List.take_left]

/-- the last '@' splits the argument -/
theorem strrchrAt_iff : strrchrAt arg = some (file, addr) ↔ arg = file ++ 64 :: addr ∧ 64 ∉ addr := by
  refine ⟨?_, fun h => h.1 ▸ strrchrAt_append file h.2⟩
  intro h
  by_cases hat : 64 ∈ arg
  · obtain ⟨front, back, hrev, hno⟩ := List.eq_append_cons_of_mem (List.mem_reverse.2 hat)
    have harg : arg = back.reverse ++ 64 :: front.reverse := by
      rw [← List.reverse_reverse arg, hrev]
      simp
    have hno' : 64 ∉ front.reverse := fun hm => hno (List.mem_reverse.1 hm)
    rw [harg, strrchrAt_append _ hno'] at h
    obtain ⟨rfl, rfl⟩ := Prod.mk.inj (Option.some.inj h)
    exact ⟨harg, hno'⟩
  · have hall : arg.reverse.takeWhile (· ≠ 64) = arg.reverse :=
      List.takeWhile_eq_self_iff.2 fun c hc => decide_eq_true fun h => hat (h ▸ List.mem_reverse.1 hc)
    simp only [strrchrAt, hall, List.reverse_reverse, lt_self_iff_false, if_false] at h
    exact nomatch h

/-- **The arguments of --load**: a file and an address, both there, the address a number to its end. -/
theorem pushExtraLoad_iff {slots slots' : List ExtraLoad} : pushExtraLoad slots arg = some slots' ↔
    ∃ file addr base, (arg = file ++ 64 :: addr ∧ 64 ∉ addr) ∧ ¬ (file = [] ∨ addr = []) ∧
      parseHex addr = some base ∧ slots' = slots ++ [⟨file, base⟩] := by
  simp only [pushExtraLoad, Option.bind_eq_some_iff, Prod.exists, strrchrAt_iff]
  refine exists_congr fun file => exists_congr fun addr => ?_
  split_ifs with he
  · simp [he]
  · simp [he, eq_comm]

end

/-! ## Addresses -/

/-- a digit of %x -/
def hexChar (d : ℕ) : Byte := BitVec.ofNat 8 (if d < 10 then 48 + d else 87 + d)

/-- the digits %x prints -/
def hexDigits (n : ℕ) : Chars := if n = 0 then [48] else (Nat.digits 16 n).reverse.map hexChar

/-- printf("0x%x") -/
def hexText (w : Word) : Chars := 48 :: 120 :: hexDigits w.toNat

theorem digitValue_hexChar : ∀ d < 16, digitValue (hexChar d) = d := by decide

theorem hexChar_ne_at : ∀ d < 16, hexChar d ≠ 64 := by decide

/-- the value of the digits, the first of them the highest -/
theorem foldl_reverse_digits (l : List ℕ) : l.reverse.foldl (fun v d => v * 16 + d) 0 = Nat.ofDigits 16 l := by
  rw [List.foldl_reverse]
  induction l with
  | nil => rfl
  | cons d l ih =>
    rw [List.foldr_cons, ih, Nat.ofDigits_cons]
    omega

section
variable (n : ℕ)

theorem hexDigits_ne_nil : hexDigits n ≠ [] := by
  unfold hexDigits
  split_ifs with h
  · simp
  · simpa using Nat.digits_ne_nil_iff_ne_zero.2 h

theorem mem_hexDigits {c : Byte} (hc : c ∈ hexDigits n) : ∃ d < 16, c = hexChar d := by
  unfold hexDigits at hc
  split_ifs at hc with h
  · exact ⟨0, by decide, List.mem_singleton.1 hc⟩
  · obtain ⟨d, hd, rfl⟩ := List.mem_map.1 hc
    exact ⟨d, Nat.digits_lt_base (by decide) (List.mem_reverse.1 hd), rfl⟩

theorem foldl_hexDigits : (hexDigits n).foldl (fun v c => v * 16 + digitValue c) 0 = n := by
  unfold hexDigits
  split_ifs with h
  · subst h; rfl
  · have hvalues : ((Nat.digits 16 n).reverse.map hexChar).map digitValue = (Nat.digits 16 n).reverse := by
      rw [List.map_map]
      refine (List.map_congr_left ?_).trans (List.map_id _)
      intro d hd
      exact digitValue_hexChar d (Nat.digits_lt_base (by decide) (List.mem_reverse.1 hd))
    have hfold := foldl_reverse_digits (Nat.digits 16 n)
    rw [← hvalues, List.foldl_map, Nat.ofDigits_digits] at hfold
    exact hfold

end

theorem hexText_no_at (w : Word) : 64 ∉ hexText w := by
  intro h
  rcases List.mem_cons.1 h with h | h
  · exact absurd h (by decide)
  rcases List.mem_cons.1 h with h | h
  · exact absurd h (by decide)
  obtain ⟨d, hd, hc⟩ := mem_hexDigits _ h
  exact hexChar_ne_at d hd hc.symm

/-- strtoul on 0x and hexadecimal digits -/
theorem strtoul_hex {ds : Chars} (hne : ds ≠ []) (hds : ∀ c ∈ ds, digitValue c < 16)
    (hval : ds.foldl (fun v c => v * 16 + digitValue c) 0 < 2 ^ 64) :
    strtoul (48 :: 120 :: ds) = some (BitVec.ofNat 64 (ds.foldl (fun v c => v * 16 + digitValue c) 0), []) := by
  have hspace : (48 :: 120 :: ds).dropWhile isspace = 48 :: 120 :: ds := rfl
  have hbase : strtoulBase (48 :: 120 :: ds) = (16, ds) := by
    obtain ⟨c, cs, rfl⟩ := List.exists_cons_of_ne_nil hne
    have hc : digitValue c < 16 := hds c List.mem_cons_self
    simp [strtoulBase, hc]
  have htake : ds.takeWhile (fun c => digitValue c < 16) = ds :=
    List.takeWhile_eq_self_iff.2 fun c hc => decide_eq_true (hds c hc)
  have hdrop : ds.dropWhile (fun c => digitValue c < 16) = [] :=
    List.dropWhile_eq_nil_iff.2 fun c hc => decide_eq_true (hds c hc)
  have hminus : (48 :: 120 :: ds).head? ≠ some (45 : Byte) := by simp
  have hplus : (48 :: 120 :: ds).head? ≠ some (43 : Byte) := by simp
  simp only [strtoul, hspace, hminus, hplus, or_self, if_false, hbase, htake, hdrop, if_neg hne,
    if_neg (Nat.not_le.2 hval), ge_iff_le, decide_false, Bool.false_eq_true]

/-- **An address printed with 0x%x is read back.** -/
theorem parseHex_hexText (w : Word) : parseHex (hexText w) = some w := by
  have hval : (hexDigits w.toNat).foldl (fun v c => v * 16 + digitValue c) 0 < 2 ^ 64 := by
    rw [foldl_hexDigits]
    have := w.isLt
    omega
  have hds : ∀ c ∈ hexDigits w.toNat, digitValue c < 16 := by
    intro c hc
    obtain ⟨d, hd, rfl⟩ := mem_hexDigits _ hc
    rw [digitValue_hexChar d hd]
    exact hd
  rw [parseHex, hexText, strtoul_hex (hexDigits_ne_nil _) hds hval, foldl_hexDigits]
  simp

/-! ## Options -/

/-- what the option loop can leave: an address that is not the default has its option -/
structure OptionsFormed (o : Options) : Prop where
  slots : ∀ slot ∈ o.extraSlots, slot.file ≠ []
  initrd : o.initrdFile = none → o.initrdAddr = initrdDefaultAddr
  fdt : o.fdtEnabled = false → o.fdtAddr = fdtDefaultAddr

theorem optionsInit_formed : OptionsFormed optionsInit := ⟨by simp [optionsInit], fun _ => rfl, fun _ => rfl⟩

/-- **One option keeps the form.** -/
theorem take_step {o o' : Options} {opt : Opt} (h : OptionsFormed o) (htake : o.take opt = some o') :
    OptionsFormed o' := by
  cases opt with
  | load optarg =>
    obtain ⟨arg, -, hmap⟩ := Option.bind_eq_some_iff.1 htake
    obtain ⟨slots, hpush, rfl⟩ := Option.map_eq_some_iff.1 hmap
    obtain ⟨file, addr, base, -, hne, -, rfl⟩ := pushExtraLoad_iff.1 hpush
    refine ⟨?_, h.initrd, h.fdt⟩
    intro slot hslot
    rcases List.mem_append.1 hslot with hslot | hslot
    · exact h.slots slot hslot
    · rw [List.mem_singleton.1 hslot]
      exact fun hf => hne (Or.inl hf)
  | initrd optarg =>
    simp only [Options.take] at htake
    split at htake
    · split_ifs at htake
      obtain ⟨a, -, rfl⟩ := Option.map_eq_some_iff.1 htake
      exact ⟨h.slots, nofun, h.fdt⟩
    · obtain rfl := Option.some.inj htake
      exact ⟨h.slots, nofun, h.fdt⟩
  | console => exact Option.some.inj htake ▸ h
  | log => exact Option.some.inj htake ▸ h
  | debug => exact Option.some.inj htake ▸ h
  | breakpoint =>
    obtain ⟨-, -, rfl⟩ := Option.map_eq_some_iff.1 htake
    exact h
  | fdt optarg =>
    cases optarg with
    | none =>
      obtain rfl := Option.some.inj htake
      exact ⟨h.slots, h.initrd, nofun⟩
    | some arg =>
      obtain ⟨a, -, rfl⟩ := Option.map_eq_some_iff.1 htake
      exact ⟨h.slots, h.initrd, nofun⟩
  | help => exact nomatch htake
  | other => exact nomatch htake

/-- the option loop keeps it -/
theorem take_formed {opts : List Opt} {o o' : Options} (h : OptionsFormed o)
    (htake : opts.foldlM Options.take o = some o') : OptionsFormed o' := by
  induction opts generalizing o with
  | nil => exact Option.some.inj htake ▸ h
  | cons opt opts ih =>
    rw [List.foldlM_cons] at htake
    obtain ⟨o₁, hstep, hrest⟩ := Option.bind_eq_some_iff.1 htake
    exact ih (take_step h hstep) hrest

/-- FILE@HEX -/
def fileAt (file : Chars) (addr : Word) : Chars := file ++ 64 :: hexText addr

/-- the option --initrd, once with its address; an empty file name takes a second option, as none may stand before an '@' -/
def initrdText (file : Chars) (addr : Word) : List Opt :=
  if file = [] then [.initrd (fileAt [64] addr), .initrd []] else [.initrd (fileAt file addr)]

/-- the options, written out -/
def optionsText (o : Options) : List Opt :=
  o.extraSlots.map (fun slot => .load (some (fileAt slot.file slot.base))) ++
    (o.initrdFile.elim [] (initrdText · o.initrdAddr) ++
      if o.fdtEnabled then [.fdt (some (hexText o.fdtAddr))] else [])

theorem pushExtraLoad_fileAt {file : Chars} (slots : List ExtraLoad) (base : Word) (hne : file ≠ []) :
    pushExtraLoad slots (fileAt file base) = some (slots ++ [⟨file, base⟩]) :=
  pushExtraLoad_iff.2 ⟨file, hexText base, base, ⟨rfl, hexText_no_at base⟩, fun h => h.elim hne nofun,
    parseHex_hexText base, rfl⟩

theorem take_fileAt {file : Chars} (o : Options) (addr : Word) (hne : file ≠ []) :
    o.take (.initrd (fileAt file addr)) = some { o with initrdFile := some file, initrdAddr := addr } := by
  have hsome : ¬ (file = [] ∨ hexText addr = []) := fun h => h.elim hne nofun
  simp only [Options.take, fileAt, strrchrAt_append file (hexText_no_at addr), if_neg hsome, parseHex_hexText,
    Option.map_some]

theorem foldlM_slots (o : Options) (slots : List ExtraLoad) (hne : ∀ slot ∈ slots, slot.file ≠ []) :
    (slots.map fun slot => Opt.load (some (fileAt slot.file slot.base))).foldlM Options.take o =
      some { o with extraSlots := o.extraSlots ++ slots } := by
  induction slots generalizing o with
  | nil => simp
  | cons slot slots ih =>
    have hstep : o.take (.load (some (fileAt slot.file slot.base))) =
        some { o with extraSlots := o.extraSlots ++ [slot] } := by
      simp only [Options.take, Option.bind_some,
        pushExtraLoad_fileAt _ _ (hne slot List.mem_cons_self), Option.map_some]
    rw [List.map_cons, List.foldlM_cons, hstep]
    refine (ih _ fun s hs => hne s (List.mem_cons_of_mem _ hs)).trans ?_
    simp

theorem take_noAddr (o : Options) : o.take (.initrd []) = some { o with initrdFile := some [] } := rfl

theorem foldlM_initrdText (o : Options) (file : Chars) (addr : Word) :
    (initrdText file addr).foldlM Options.take o = some { o with initrdFile := some file, initrdAddr := addr } := by
  unfold initrdText
  split_ifs with h
  · -- the address stays when the second option gives none
    subst h
    rw [List.foldlM_cons, take_fileAt o addr (List.cons_ne_nil 64 [])]
    simp [take_noAddr]
  · simp [take_fileAt o addr h]

/-- **Options of the form, written out, are read back.** -/
theorem foldlM_optionsText {o : Options} (h : OptionsFormed o) :
    (optionsText o).foldlM Options.take optionsInit = some o := by
  obtain ⟨slots, initrdFile, initrdAddr, fdtEnabled, fdtAddr⟩ := o
  rw [optionsText, List.foldlM_append, foldlM_slots _ _ h.slots]
  simp only [Option.bind_eq_bind, Option.bind_some, List.foldlM_append]
  cases initrdFile with
  | none =>
    obtain rfl : initrdAddr = initrdDefaultAddr := h.initrd rfl
    cases fdtEnabled with
    | false =>
      obtain rfl : fdtAddr = fdtDefaultAddr := h.fdt rfl
      simp [optionsInit]
    | true => simp [optionsInit, Options.take, parseHex_hexText]
  | some file =>
    simp only [Option.elim_some, foldlM_initrdText, Option.bind_some]
    cases fdtEnabled with
    | false =>
      obtain rfl : fdtAddr = fdtDefaultAddr := h.fdt rfl
      simp [optionsInit]
    | true => simp [optionsInit, Options.take, parseHex_hexText]

/-- **Every command line has a canonical one**: the options it leaves, written out, are read back to the same options
and boot the same machine. -/
theorem options_round_trip {opts : List Opt} {o : Options} (h : opts.foldlM Options.take optionsInit = some o) :
    (optionsText o).foldlM Options.take optionsInit = some o ∧
      ∀ files operands, main files ⟨opts, operands⟩ = main files ⟨optionsText o, operands⟩ := by
  have hread : (optionsText o).foldlM Options.take optionsInit = some o :=
    foldlM_optionsText (take_formed optionsInit_formed h)
  refine ⟨hread, fun files operands => ?_⟩
  simp only [main, h, hread]

/-- "a@b@0x10" twice, an initrd whose second option has no address, and a tree -/
theorem options_round_trip_twice :
    (optionsText ⟨[⟨[97, 64, 98], 16⟩, ⟨[97, 64, 98], 16⟩], some [99], 255, true, 0⟩).foldlM Options.take optionsInit =
      some ⟨[⟨[97, 64, 98], 16⟩, ⟨[97, 64, 98], 16⟩], some [99], 255, true, 0⟩ :=
  (@options_round_trip [.load (some [97, 64, 98, 64, 48, 120, 49, 48]), .load (some [97, 64, 98, 64, 49, 54]),
    .initrd [100, 64, 48, 120, 70, 102], .initrd [99], .fdt none, .fdt (some [48])] _ rfl).1

end RiscvEmu
