import RostamBench.Lib.Text

/-!
The two registration scripts of `install.sh`.

The first one adds an enum member and three branches to `clients/__init__.py`, each
at an anchor of its own, and skips the file when it finds `DB.Rostam` in it. Only the
branches hold that string. A file with the anchor of the enum member and none of the
others is therefore not skipped the next time, and gets a second member. The second
script looks for a part of the line it inserts, so it is idempotent whatever the file
holds.
-/

namespace RostamBench.Vectordbbench.Install

open Text

/-! ### The scripts -/

def enumAnchor : List Char := "    QdrantLocal = \"QdrantLocal\"\n".toList

def enumMember : List Char := "    Rostam = \"Rostam\"\n".toList

/-- An anchor and the branch that goes before it. -/
structure Insertion where
  anchor : List Char
  branch : List Char

def initCls : Insertion where
  anchor := "        if self == DB.QdrantLocal:\n            from .qdrant_local.qdrant_local import QdrantLocal".toList
  branch := "        if self == DB.Rostam:\n            from .rostam.rostam import Rostam\n\n            return Rostam\n\n".toList

def configCls : Insertion where
  anchor := "        if self == DB.QdrantLocal:\n            from .qdrant_local.config import QdrantLocalConfig".toList
  branch := "        if self == DB.Rostam:\n            from .rostam.config import RostamConfig\n\n            return RostamConfig\n\n".toList

def caseConfigCls : Insertion where
  anchor := "        if self == DB.QdrantLocal:\n            from .qdrant_local.config import QdrantLocalIndexConfig".toList
  branch := "        if self == DB.Rostam:\n            from .rostam.config import RostamHNSWConfig\n\n            return RostamHNSWConfig\n\n".toList

/-- `insert_before(src, anchor, branch)`. -/
def insertBefore (src : List Char) (i : Insertion) : List Char :=
  replaceFirst i.anchor (i.branch ++ i.anchor) src

/-- The string the first script looks for. -/
def registered : List Char := "DB.Rostam".toList

def addMember (src : List Char) : List Char :=
  replaceFirst enumAnchor (enumAnchor ++ enumMember) src

/-- The three insertions, in the order in which they are made. -/
def branches : List Insertion := [initCls, configCls, caseConfigCls]

/-- What the first script makes of `__init__.py`. -/
def registerClient (content : List Char) : List Char :=
  let src := readText content
  if "Rostam".toList <:+: src ∧ registered <:+: src then content
  else branches.foldl insertBefore (addMember src)

/-- The string the second script looks for. -/
def cliRegistered : List Char := "rostam.cli".toList

def cliAnchor : List Char := "from ..backend.clients.".toList

def imp : List Char := "from ..backend.clients.rostam.cli import RostamHNSW\n".toList

/-- The line goes after the first import of a client. Without the anchor, or without
a line end after it, it goes to the end or to the start of the file. -/
def insertImp (src : List Char) : List Char :=
  let idx := find src cliAnchor 0
  let nl := (find src ['\n'] idx + 1).toNat
  src.take nl ++ imp ++ src.drop nl

/-- What the second script makes of `cli/vectordbbench.py`. -/
def registerCli (content : List Char) : List Char :=
  let src := readText content
  if cliRegistered <:+: src then content else insertImp src

/-- The two files of a checkout. -/
structure Checkout where
  init : List Char
  cli : List Char
  deriving DecidableEq

def install (c : Checkout) : Checkout where
  init := registerClient c.init
  cli := registerCli c.cli

/-! ### The command -/

theorem registerCli_of_present {content : List Char} (h : cliRegistered <:+: readText content) :
    registerCli content = content :=
  if_pos h

theorem registerCli_of_absent {content : List Char}
    (h : ¬ cliRegistered <:+: readText content) :
    registerCli content = insertImp (readText content) :=
  if_neg h

/-- What the second script writes holds the line it inserts and no `'\r'`. -/
theorem insertImp_cases {src : List Char} (h : '\r' ∉ src) :
    imp <:+: insertImp src ∧ '\r' ∉ insertImp src := by
  have himp : '\r' ∉ imp := by decide
  rw [insertImp]
  refine ⟨⟨_, _, rfl⟩, ?_⟩
  simp only [List.mem_append, not_or]
  exact ⟨⟨fun hmem => h (List.mem_of_mem_take hmem), himp⟩, fun hmem => h (List.mem_of_mem_drop hmem)⟩

theorem registerCli_idempotent (content : List Char) :
    registerCli (registerCli content) = registerCli content := by
  by_cases hskip : cliRegistered <:+: readText content
  · rw [registerCli_of_present hskip, registerCli_of_present hskip]
  · obtain ⟨hpresent, hcr⟩ := insertImp_cases (not_mem_readText content)
    have hmark : cliRegistered <:+: imp := by decide
    rw [registerCli_of_absent hskip]
    apply registerCli_of_present
    rw [readText_of_not_mem hcr]
    exact hmark.trans hpresent

/-! ### The client -/

theorem registerClient_of_present {content : List Char} (h : registered <:+: readText content) :
    registerClient content = content := by
  have hname : "Rostam".toList <:+: registered := by decide
  exact if_pos ⟨hname.trans h, h⟩

theorem registerClient_of_absent {content : List Char}
    (h : ¬ registered <:+: readText content) :
    registerClient content = branches.foldl insertBefore (addMember (readText content)) :=
  if_neg fun hskip => h hskip.2

theorem length_le_foldl_insertBefore (bs : List Insertion) (src : List Char) :
    src.length ≤ (bs.foldl insertBefore src).length := by
  induction bs generalizing src with
  | nil => exact le_refl _
  | cons i bs ih =>
      have hstep : src.length ≤ (insertBefore src i).length :=
        length_le_length_replaceFirst (by rw [List.length_append]; omega)
      exact hstep.trans (ih _)

theorem foldl_insertBefore_of_none {bs : List Insertion} {src : List Char}
    (h : ∀ i ∈ bs, ¬ i.anchor <:+: src) : bs.foldl insertBefore src = src := by
  induction bs with
  | nil => rfl
  | cons i bs ih =>
      obtain ⟨hi, hbs⟩ := List.forall_mem_cons.mp h
      rw [List.foldl_cons, insertBefore, replaceFirst_of_absent hi, ih hbs]

/-- A branch that finds its anchor leaves the string the script looks for, and it
stays: where it is broken up, another branch has been inserted. -/
theorem infix_foldl_insertBefore {bs : List Insertion} {src mark : List Char}
    (hbranch : ∀ i ∈ bs, mark <:+: i.branch)
    (h : mark <:+: src ∨ ∃ i ∈ bs, i.anchor <:+: src) : mark <:+: bs.foldl insertBefore src := by
  induction bs generalizing src with
  | nil => simpa using h
  | cons i bs ih =>
      obtain ⟨hi, hbs⟩ := List.forall_mem_cons.mp hbranch
      rw [List.foldl_cons]
      apply ih hbs
      by_cases hanchor : i.anchor <:+: src
      · have hnew : i.branch ++ i.anchor <:+: insertBefore src i := infix_replaceFirst hanchor
        exact Or.inl ((hi.trans List.infix_append_left).trans hnew)
      · have hsame : insertBefore src i = src := replaceFirst_of_absent hanchor
        rw [hsame]
        rcases h with h | ⟨j, hj, hjsrc⟩
        · exact Or.inl h
        · rcases List.mem_cons.mp hj with rfl | hj
          · exact absurd hjsrc hanchor
          · exact Or.inr ⟨j, hj, hjsrc⟩

theorem not_mem_foldl_insertBefore {bs : List Insertion} {src : List Char} {c : Char}
    (hbs : ∀ i ∈ bs, c ∉ i.branch ++ i.anchor) (h : c ∉ src) : c ∉ bs.foldl insertBefore src := by
  induction bs generalizing src with
  | nil => exact h
  | cons i bs ih =>
      obtain ⟨hi, hbs⟩ := List.forall_mem_cons.mp hbs
      apply ih hbs
      intro hmem
      rcases mem_replaceFirst hmem with hmem | hmem
      · exact h hmem
      · exact hi hmem

/-- The enum member stands on a line of its own, which ends with a quote, so it
neither makes nor breaks an occurrence of a text that does not begin with a line end
and has no quote. -/
theorem infix_addMember_iff {pat src : List Char} (hquote : '"' ∉ pat)
    (hhead : pat.head? ≠ some '\n') (hpat : ¬ pat <:+: enumMember) :
    pat <:+: addMember src ↔ pat <:+: src := by
  by_cases hpresent : enumAnchor <:+: src
  · obtain ⟨a, b, hsrc, hadd⟩ := replaceFirst_of_present (enumAnchor ++ enumMember) hpresent
    rw [addMember, hadd, hsrc]
    exact infix_insert_iff hquote hhead (by decide) (by decide) hpat
  · rw [addMember, replaceFirst_of_absent hpresent]

theorem anchor_infix_addMember_iff {i : Insertion} (hi : i ∈ branches) {src : List Char} :
    i.anchor <:+: addMember src ↔ i.anchor <:+: src := by
  have hcheck : ∀ i ∈ branches, '"' ∉ i.anchor ∧ i.anchor.head? ≠ some '\n' ∧
      ¬ i.anchor <:+: enumMember := by
    unfold branches initCls configCls caseConfigCls enumMember
    -- A literal is its list of characters. To evaluate `toList` is to decode its bytes.
    iterate 7 rw [String.toList_ofList]
    decide +kernel
  obtain ⟨hquote, hhead, hpat⟩ := hcheck i hi
  exact infix_addMember_iff hquote hhead hpat

theorem registered_infix_addMember_iff {src : List Char} :
    registered <:+: addMember src ↔ registered <:+: src :=
  infix_addMember_iff (by decide) (by decide) (by decide)

/-- What the first script writes holds no `'\r'`, so it is read back as it was
written. -/
theorem readText_addBranches {src : List Char} (h : '\r' ∉ src) :
    readText (branches.foldl insertBefore (addMember src)) =
      branches.foldl insertBefore (addMember src) := by
  have hmember : '\r' ∉ enumAnchor ++ enumMember := by decide
  have hbranches : ∀ i ∈ branches, '\r' ∉ i.branch ++ i.anchor := by
    unfold branches initCls configCls caseConfigCls
    iterate 6 rw [String.toList_ofList]
    decide +kernel
  apply readText_of_not_mem
  apply not_mem_foldl_insertBefore hbranches
  intro hmem
  rcases mem_replaceFirst hmem with hmem | hmem
  · exact h hmem
  · exact hmember hmem

/-- The first script may be run twice if it skips the file, finds nothing to add the
member to, or adds a branch. -/
def Stable (init : List Char) : Prop :=
  registered <:+: readText init ∨ ¬ enumAnchor <:+: readText init ∨
    ∃ i ∈ branches, i.anchor <:+: readText init

instance (init : List Char) : Decidable (Stable init) :=
  inferInstanceAs (Decidable (registered <:+: readText init ∨ ¬ enumAnchor <:+: readText init ∨
    ∃ i ∈ branches, i.anchor <:+: readText init))

theorem registerClient_of_stable {init : List Char} (h : Stable init) :
    registerClient (registerClient init) = registerClient init := by
  by_cases hskip : registered <:+: readText init
  · rw [registerClient_of_present hskip, registerClient_of_present hskip]
  · have hread := readText_addBranches (not_mem_readText init)
    rw [registerClient_of_absent hskip]
    by_cases hanchor : ∃ i ∈ branches, i.anchor <:+: readText init
    · obtain ⟨i, hi, hisrc⟩ := hanchor
      have hmarks : ∀ i ∈ branches, registered <:+: i.branch := by
        unfold branches initCls configCls caseConfigCls registered
        iterate 7 rw [String.toList_ofList]
        decide +kernel
      apply registerClient_of_present
      rw [hread]
      exact infix_foldl_insertBefore hmarks
        (Or.inr ⟨i, hi, (anchor_infix_addMember_iff hi).mpr hisrc⟩)
    · -- Nothing is added at all, now as then.
      have henum : ¬ enumAnchor <:+: readText init := (h.resolve_left hskip).resolve_right hanchor
      have hmember : addMember (readText init) = readText init := replaceFirst_of_absent henum
      have hnone : branches.foldl insertBefore (addMember (readText init)) = readText init := by
        rw [hmember]
        exact foldl_insertBefore_of_none fun i hi hisrc => hanchor ⟨i, hi, hisrc⟩
      rw [hnone] at hread ⊢
      rw [registerClient_of_absent (by rw [hread]; exact hskip), hread, hnone]

/-- A file that is not stable gets a second enum member. -/
theorem stable_of_registerClient {init : List Char}
    (h : registerClient (registerClient init) = registerClient init) : Stable init := by
  by_contra hstable
  simp only [Stable, not_or, not_not] at hstable
  obtain ⟨hskip, henum, hanchor⟩ := hstable
  have hread := readText_addBranches (not_mem_readText init)
  have hnone : branches.foldl insertBefore (addMember (readText init)) =
      addMember (readText init) := by
    apply foldl_insertBefore_of_none
    intro i hi hisrc
    exact hanchor ⟨i, hi, (anchor_infix_addMember_iff hi).mp hisrc⟩
  rw [hnone] at hread
  rw [registerClient_of_absent hskip, hnone, registerClient_of_absent
    (by rw [hread]; exact fun hmark => hskip (registered_infix_addMember_iff.mp hmark)), hread] at h
  have hagain : enumAnchor <:+: addMember (readText init) :=
    List.infix_append_left.trans (infix_replaceFirst henum)
  have hlonger : (addMember (readText init)).length <
      (addMember (addMember (readText init))).length :=
    length_lt_length_replaceFirst (by decide) hagain
  have hle := length_le_foldl_insertBefore branches (addMember (addMember (readText init)))
  rw [h] at hle
  omega

/-- Running the two scripts a second time changes nothing if and only if
`__init__.py` is stable; `cli/vectordbbench.py` may hold anything. -/
theorem install_idempotent_iff (c : Checkout) :
    install (install c) = install c ↔ Stable c.init := by
  constructor
  · intro h
    exact stable_of_registerClient (congrArg Checkout.init h)
  · intro h
    show Checkout.mk _ _ = Checkout.mk _ _
    rw [Checkout.mk.injEq]
    exact ⟨registerClient_of_stable h, registerCli_idempotent c.cli⟩

/-- A checkout whose enum has the member and whose branches have another form. -/
def drifted : Checkout where
  init := "class DB(Enum):\n    QdrantLocal = \"QdrantLocal\"\n".toList
  cli := []

/-- The second run adds a second member. -/
theorem install_drifted_twice :
    (install drifted).init = drifted.init ++ enumMember ∧
      (install (install drifted)).init = drifted.init ++ enumMember ++ enumMember ∧
      install (install drifted) ≠ install drifted := by
  decide +kernel

end RostamBench.Vectordbbench.Install
