import Hardhat.Network.Revert
import Hardhat.Network.Logs

namespace Hardhat.Network

namespace BlockchainData

/-! # The stored blocks

What a `BlockchainData` is for: holding the blocks the chain added and has not removed
since, each with the total difficulty it was added with, and finding one of them by its
number, by its hash, or by the hash of one of its transactions.  This module states that
purpose as a list of blocks, oldest first, searched with `List.find?`, and shows that the
maps of the source answer `getBlockByNumber`, `getBlockByHash`, `getTotalDifficulty` and
`getBlockByTransactionHash` as that list does, after any run of calls the owning
blockchain is allowed to make (`run_refines_storedBlocks`).

The list forgets `_transactions` and `_transactionReceipts`, which also hold pending
transactions and receipts, and the empty block ranges.
-/

variable {Block TypedTransaction RpcReceiptOutput : Type}
  (chain : ChainAccess Block TypedTransaction RpcReceiptOutput)

/-- The first stored block that a test selects, with its total difficulty. -/
def findStored (stored : List (Block × Nat)) (selects : Block → Bool) : Option (Block × Nat) :=
  stored.find? fun entry => selects entry.1

/-- Whether one of the block's transactions has this hash. -/
def hasTransaction (block : Block) (transactionHash : String) : Bool :=
  (chain.blockTransactions block).any fun transaction =>
    chain.transactionHash transaction == transactionHash

def blockWithNumber (stored : List (Block × Nat)) (blockNumber : Nat) : Option Block :=
  (findStored stored fun block => chain.blockNumber block == blockNumber).map Prod.fst

def blockWithHash (stored : List (Block × Nat)) (blockHash : String) : Option Block :=
  (findStored stored fun block => chain.blockHash block == blockHash).map Prod.fst

def totalDifficultyWithHash (stored : List (Block × Nat)) (blockHash : String) : Option Nat :=
  (findStored stored fun block => chain.blockHash block == blockHash).map Prod.snd

def blockWithTransaction (stored : List (Block × Nat)) (transactionHash : String) : Option Block :=
  (findStored stored fun block => hasTransaction chain block transactionHash).map Prod.fst

/-- Removing a block drops the stored blocks of its hash. -/
def removeStored (stored : List (Block × Nat)) (block : Block) : List (Block × Nat) :=
  stored.filter fun entry => chain.blockHash entry.1 != chain.blockHash block

/-- A call on the stored blocks: `addBlock` appends the block and `removeBlock` removes it,
each only when the block number fits in 53 bits, since the source throws in `toNumber`
otherwise; the other calls touch no block. -/
def applyStored (stored : List (Block × Nat)) :
    Call Block TypedTransaction RpcReceiptOutput → List (Block × Nat)
  | .addBlock block totalDifficulty =>
      if chain.blockNumber block ≤ maxSafeInteger then stored ++ [(block, totalDifficulty)]
      else stored
  | .removeBlock block =>
      if chain.blockNumber block ≤ maxSafeInteger then removeStored chain stored block else stored
  | _ => stored

/-- The stored blocks after the calls, made in turn. -/
def storedAfter (stored : List (Block × Nat))
    (calls : List (Call Block TypedTransaction RpcReceiptOutput)) : List (Block × Nat) :=
  calls.foldl (applyStored chain) stored

/-- The calls are made in turn, each allowed in the state it is made in. -/
def AllowedRun : BlockchainData Block TypedTransaction RpcReceiptOutput →
    List (Call Block TypedTransaction RpcReceiptOutput) → Prop
  | _, [] => True
  | data, call :: calls => Allowed chain data call ∧ AllowedRun (data.apply chain call) calls

/-- No two stored blocks share a number or the hash of a transaction. -/
structure StoredWellFormed (stored : List (Block × Nat)) : Prop where
  numbersNodup : (stored.map fun entry => chain.blockNumber entry.1).Nodup
  transactionsDisjoint : stored.Pairwise fun entry other => ∀ transactionHash,
    hasTransaction chain entry.1 transactionHash → hasTransaction chain other.1 transactionHash →
      False

/-- The block indices of `data` answer as the stored blocks do. -/
structure Represents (data : BlockchainData Block TypedTransaction RpcReceiptOutput)
    (stored : List (Block × Nat)) : Prop where
  byNumber : ∀ blockNumber, data.blocksByNumber blockNumber = blockWithNumber chain stored blockNumber
  byHash : ∀ blockHash, data.blocksByHash blockHash = blockWithHash chain stored blockHash
  totalDifficulty : ∀ blockHash,
    data.totalDifficulty blockHash = totalDifficultyWithHash chain stored blockHash
  byTransaction : ∀ transactionHash,
    data.blocksByTransactions transactionHash = blockWithTransaction chain stored transactionHash

theorem represents_empty :
    Represents chain (empty : BlockchainData Block TypedTransaction RpcReceiptOutput) [] :=
  ⟨fun _ => rfl, fun _ => rfl, fun _ => rfl, fun _ => rfl⟩

theorem storedWellFormed_nil : StoredWellFormed chain [] := ⟨List.nodup_nil, List.Pairwise.nil⟩

/-! ## Searching the stored blocks -/

section Lookup

variable {chain} {stored : List (Block × Nat)} {selects : Block → Bool}

theorem hasTransaction_iff {block : Block} {transactionHash : String} :
    hasTransaction chain block transactionHash = true ↔
      transactionHash ∈ (chain.blockTransactions block).map chain.transactionHash := by
  simp only [hasTransaction, List.any_eq_true, beq_iff_eq, List.mem_map]

theorem findStored_eq_none :
    findStored stored selects = none ↔ ∀ entry ∈ stored, selects entry.1 = false := by
  simp [findStored, List.find?_eq_none]

theorem mem_of_findStored {entry : Block × Nat} (found : findStored stored selects = some entry) :
    entry ∈ stored ∧ selects entry.1 = true := by
  unfold findStored at found
  have selected := List.find?_some found
  exact ⟨List.mem_of_find?_eq_some found, selected⟩

/-- An appended block is found only where no earlier block is. -/
theorem findStored_append (block : Block) (totalDifficulty : Nat) :
    findStored (stored ++ [(block, totalDifficulty)]) selects =
      (findStored stored selects).or
        (if selects block then some (block, totalDifficulty) else none) := by
  simp only [findStored, List.find?_append, List.find?_singleton]

/-- Removing a block the test does not select changes no search, when distinct blocks
have distinct hashes. -/
theorem findStored_removeStored (blockHashInjective : Function.Injective chain.blockHash)
    {block : Block} (unselected : selects block = false) :
    findStored (removeStored chain stored block) selects = findStored stored selects := by
  have kept : ∀ entry : Block × Nat,
      decide ((chain.blockHash entry.1 != chain.blockHash block) = true ∧ selects entry.1 = true) =
        selects entry.1 := fun entry => by
    cases selected : selects entry.1
    · simp
    · have differs : chain.blockHash entry.1 ≠ chain.blockHash block := fun same => by
        rw [blockHashInjective same, unselected] at selected
        cases selected
      simp [differs]
  simp only [findStored, removeStored, List.find?_filter, kept]

/-- Removing the one block a test can select leaves nothing for it to find. -/
theorem findStored_removeStored_eq_none {block : Block}
    (onlyBlock : ∀ entry ∈ stored, selects entry.1 = true → entry.1 = block) :
    findStored (removeStored chain stored block) selects = none := by
  refine findStored_eq_none.mpr fun entry member => ?_
  obtain ⟨member, kept⟩ := List.mem_filter.mp member
  cases selected : selects entry.1
  · rfl
  · simp [onlyBlock entry member selected] at kept

/-- A search by a key after appending a block whose key no stored block has: that block
for its own key, the earlier answer for any other. -/
theorem findStored_append_key {α : Type} [BEq α] [LawfulBEq α] [DecidableEq α] (key : Block → α)
    {block : Block} {totalDifficulty : Nat}
    (keyFree : findStored stored (fun other => key other == key block) = none) (searched : α) :
    findStored (stored ++ [(block, totalDifficulty)]) (fun other => key other == searched) =
      if searched = key block then some (block, totalDifficulty)
      else findStored stored fun other => key other == searched := by
  rw [findStored_append]
  by_cases same : searched = key block
  · subst same; simp [keyFree]
  · simp [same, Ne.symm same]

/-- A search by a key after removing the one block of its key: nothing for that key, the
earlier answer for any other. -/
theorem findStored_removeStored_key (blockHashInjective : Function.Injective chain.blockHash)
    {α : Type} [BEq α] [LawfulBEq α] [DecidableEq α] (key : Block → α) {block : Block}
    (onlyBlock : ∀ entry ∈ stored, key entry.1 = key block → entry.1 = block) (searched : α) :
    findStored (removeStored chain stored block) (fun other => key other == searched) =
      if searched = key block then none
      else findStored stored fun other => key other == searched := by
  split_ifs with same
  · subst same
    exact findStored_removeStored_eq_none fun entry member selected =>
      onlyBlock entry member (beq_iff_eq.mp selected)
  · exact findStored_removeStored blockHashInjective (by simpa using Ne.symm same)

/-- Two stored blocks of one number are the same entry. -/
theorem StoredWellFormed.eq_of_blockNumber (wellFormed : StoredWellFormed chain stored)
    {entry other : Block × Nat} (entryMember : entry ∈ stored) (otherMember : other ∈ stored)
    (sameNumber : chain.blockNumber entry.1 = chain.blockNumber other.1) : entry = other :=
  List.inj_on_of_nodup_map wellFormed.numbersNodup entryMember otherMember sameNumber

/-- Two stored blocks with a transaction of one hash are the same entry. -/
theorem StoredWellFormed.eq_of_hasTransaction (wellFormed : StoredWellFormed chain stored)
    {entry other : Block × Nat} {transactionHash : String} (entryMember : entry ∈ stored)
    (otherMember : other ∈ stored) (inEntry : hasTransaction chain entry.1 transactionHash = true)
    (inOther : hasTransaction chain other.1 transactionHash = true) : entry = other := by
  have symmetric : Symmetric fun entry other : Block × Nat => ∀ transactionHash,
      hasTransaction chain entry.1 transactionHash → hasTransaction chain other.1 transactionHash →
        False :=
    fun _ _ disjoint hash first second => disjoint hash second first
  by_contra differs
  exact wellFormed.transactionsDisjoint.forall symmetric entryMember otherMember differs
    transactionHash inEntry inOther

end Lookup

/-! ## One call -/

section Step

variable {chain} {data : BlockchainData Block TypedTransaction RpcReceiptOutput} {stored : List (Block × Nat)}
  {block : Block} {totalDifficulty : Nat}

/-- No stored block has the number of a block that may be added, or the hash of one of
its transactions. -/
theorem Represents.free_of_allowed (represents : Represents chain data stored)
    (allowed : Allowed chain data (.addBlock block totalDifficulty)) :
    findStored stored (fun other => chain.blockNumber other == chain.blockNumber block) = none ∧
      ∀ transactionHash, hasTransaction chain block transactionHash = true →
        findStored stored (fun other => hasTransaction chain other transactionHash) = none := by
  refine ⟨by simpa [represents.byNumber, blockWithNumber] using allowed.1,
    fun transactionHash present => ?_⟩
  obtain ⟨transaction, member, rfl⟩ := List.mem_map.mp (hasTransaction_iff.mp present)
  simpa [represents.byTransaction, blockWithTransaction] using allowed.2 transaction member

/-- An allowed `addBlock` that does not throw appends the block to the stored blocks. -/
theorem Represents.addBlock (blockHashInjective : Function.Injective chain.blockHash)
    (represents : Represents chain data stored)
    (allowed : Allowed chain data (.addBlock block totalDifficulty))
    (small : chain.blockNumber block ≤ maxSafeInteger) :
    Represents chain (data.apply chain (.addBlock block totalDifficulty))
      (stored ++ [(block, totalDifficulty)]) := by
  obtain ⟨numberFree, transactionFree⟩ := represents.free_of_allowed allowed
  have hashFree : findStored stored (fun other => chain.blockHash other == chain.blockHash block) =
      none := by
    refine findStored_eq_none.mpr fun entry member => ?_
    have differs := findStored_eq_none.mp numberFree entry member
    cases same : chain.blockHash entry.1 == chain.blockHash block
    · rfl
    · rw [blockHashInjective (beq_iff_eq.mp same), beq_self_eq_true] at differs
      cases differs
  refine ⟨fun blockNumber => ?_, fun blockHash => ?_, fun blockHash => ?_, fun transactionHash => ?_⟩
  · rw [blocksByNumber_addBlock small, represents.byNumber]
    simp only [blockWithNumber, findStored_append_key chain.blockNumber numberFree]
    split_ifs <;> rfl
  · rw [blocksByHash_addBlock small, represents.byHash]
    simp only [blockWithHash, findStored_append_key chain.blockHash hashFree]
    split_ifs <;> rfl
  · rw [totalDifficulty_addBlock small, represents.totalDifficulty]
    simp only [totalDifficultyWithHash, findStored_append_key chain.blockHash hashFree]
    split_ifs <;> rfl
  · rw [blocksByTransactions_addBlock small, blockWithTransaction, findStored_append]
    by_cases present : hasTransaction chain block transactionHash = true
    · rw [if_pos (hasTransaction_iff.mp present), transactionFree _ present, present]; rfl
    · rw [if_neg (mt hasTransaction_iff.mpr present), represents.byTransaction]
      simp [present, blockWithTransaction]

/-- An allowed `removeBlock` that does not throw removes the block from the stored
blocks. -/
theorem Represents.removeBlock (blockHashInjective : Function.Injective chain.blockHash)
    (represents : Represents chain data stored)
    (wellFormed : StoredWellFormed chain stored) (allowed : Allowed chain data (.removeBlock block))
    (small : chain.blockNumber block ≤ maxSafeInteger) :
    Represents chain (data.apply chain (.removeBlock block)) (removeStored chain stored block) := by
  have indexed : data.blocksByHash (chain.blockHash block) = some block := allowed
  obtain ⟨totalDifficulty', found⟩ : ∃ totalDifficulty',
      findStored stored (fun other => chain.blockHash other == chain.blockHash block) =
        some (block, totalDifficulty') := by
    simpa [represents.byHash, blockWithHash] using indexed
  have member := (mem_of_findStored found).1
  have sameNumber : ∀ entry ∈ stored, chain.blockNumber entry.1 = chain.blockNumber block →
      entry.1 = block := fun _ entryMember same =>
    congrArg Prod.fst (wellFormed.eq_of_blockNumber entryMember member same)
  have sameHash : ∀ entry ∈ stored, chain.blockHash entry.1 = chain.blockHash block → entry.1 = block :=
    fun _ _ same => blockHashInjective same
  refine ⟨fun blockNumber => ?_, fun blockHash => ?_, fun blockHash => ?_, fun transactionHash => ?_⟩
  · rw [blocksByNumber_removeBlock small, represents.byNumber]
    simp only [blockWithNumber, findStored_removeStored_key blockHashInjective _ sameNumber]
    split_ifs <;> rfl
  · rw [blocksByHash_removeBlock small, represents.byHash]
    simp only [blockWithHash, findStored_removeStored_key blockHashInjective _ sameHash]
    split_ifs <;> rfl
  · rw [totalDifficulty_removeBlock small, represents.totalDifficulty]
    simp only [totalDifficultyWithHash, findStored_removeStored_key blockHashInjective _ sameHash]
    split_ifs <;> rfl
  · rw [(transactionKeys_removeBlock small transactionHash).2.2, blockWithTransaction]
    split_ifs with present
    · rw [findStored_removeStored_eq_none fun entry entryMember selected => congrArg Prod.fst
        (wellFormed.eq_of_hasTransaction entryMember member selected (hasTransaction_iff.mpr present))]
      rfl
    · rw [findStored_removeStored blockHashInjective
        (by simpa using mt hasTransaction_iff.mp present), represents.byTransaction,
        blockWithTransaction]

theorem StoredWellFormed.append (wellFormed : StoredWellFormed chain stored)
    (numberFree : ∀ entry ∈ stored, chain.blockNumber entry.1 ≠ chain.blockNumber block)
    (transactionFree : ∀ entry ∈ stored, ∀ transactionHash,
      hasTransaction chain entry.1 transactionHash → hasTransaction chain block transactionHash →
        False) :
    StoredWellFormed chain (stored ++ [(block, totalDifficulty)]) where
  numbersNodup := by
    rw [List.map_append, List.nodup_append]
    refine ⟨wellFormed.numbersNodup, List.nodup_singleton _, fun number old added => ?_⟩
    obtain ⟨entry, member, rfl⟩ := List.mem_map.mp old
    exact numberFree entry member (List.mem_singleton.mp added)
  transactionsDisjoint := List.pairwise_append.mpr ⟨wellFormed.transactionsDisjoint,
    List.pairwise_singleton _ _, fun entry member _ added => by
      rw [List.mem_singleton.mp added]
      exact transactionFree entry member⟩

theorem StoredWellFormed.removeStored (wellFormed : StoredWellFormed chain stored) (block : Block) :
    StoredWellFormed chain (removeStored chain stored block) :=
  ⟨wellFormed.numbersNodup.sublist ((List.filter_sublist stored).map _),
    wellFormed.transactionsDisjoint.filter _⟩

/-- The block indices read nothing but the four maps. -/
theorem Represents.congr {other : BlockchainData Block TypedTransaction RpcReceiptOutput}
    (represents : Represents chain data stored)
    (sameNumbers : other.blocksByNumber = data.blocksByNumber)
    (sameHashes : other.blocksByHash = data.blocksByHash)
    (sameDifficulties : other.totalDifficulty = data.totalDifficulty)
    (sameBlocksByTransactions : other.blocksByTransactions = data.blocksByTransactions) :
    Represents chain other stored := by
  obtain ⟨byNumber, byHash, totalDifficulty, byTransaction⟩ := represents
  exact ⟨sameNumbers ▸ byNumber, sameHashes ▸ byHash, sameDifficulties ▸ totalDifficulty,
    sameBlocksByTransactions ▸ byTransaction⟩

/-- Each allowed call moves the stored blocks by `applyStored` and keeps them well formed. -/
theorem Represents.apply (blockHashInjective : Function.Injective chain.blockHash)
    (represents : Represents chain data stored)
    (wellFormed : StoredWellFormed chain stored) (call : Call Block TypedTransaction RpcReceiptOutput)
    (allowed : Allowed chain data call) :
    Represents chain (data.apply chain call) (applyStored chain stored call) ∧
      StoredWellFormed chain (applyStored chain stored call) := by
  cases call with
  | addBlock block totalDifficulty =>
      by_cases small : chain.blockNumber block ≤ maxSafeInteger
      · rw [applyStored, if_pos small]
        obtain ⟨numberFree, transactionFree⟩ := represents.free_of_allowed allowed
        refine ⟨represents.addBlock blockHashInjective allowed small,
          wellFormed.append (fun entry member same => ?_) fun entry member transactionHash old new => ?_⟩
        · simpa [same] using findStored_eq_none.mp numberFree entry member
        · simpa [old] using findStored_eq_none.mp (transactionFree _ new) entry member
      · simp only [BlockchainData.apply, addBlock_eq_error chain small, applyStored, if_neg small]
        exact ⟨represents, wellFormed⟩
  | removeBlock block =>
      by_cases small : chain.blockNumber block ≤ maxSafeInteger
      · rw [applyStored, if_pos small]
        exact ⟨represents.removeBlock blockHashInjective wellFormed allowed small,
          wellFormed.removeStored block⟩
      · simp only [BlockchainData.apply, removeBlock_eq_error chain small, applyStored, if_neg small]
        exact ⟨represents, wellFormed⟩
  | addTransaction => exact ⟨represents.congr rfl rfl rfl rfl, wellFormed⟩
  | addTransactionReceipt => exact ⟨represents.congr rfl rfl rfl rfl, wellFormed⟩
  | addEmptyBlockRange => exact ⟨represents.congr rfl rfl rfl rfl, wellFormed⟩
  | splitAnyEmptyBlockRangesFor blockNumber =>
      obtain ⟨_, split⟩ := data.splitAnyEmptyBlockRangesFor_snd blockNumber
      simp only [BlockchainData.apply, split, applyStored]
      exact ⟨represents.congr rfl rfl rfl rfl, wellFormed⟩

theorem Represents.run (blockHashInjective : Function.Injective chain.blockHash)
    {calls : List (Call Block TypedTransaction RpcReceiptOutput)} (represents : Represents chain data stored) (wellFormed : StoredWellFormed chain stored)
    (allowed : AllowedRun chain data calls) :
    Represents chain (data.run chain calls) (storedAfter chain stored calls) ∧
      StoredWellFormed chain (storedAfter chain stored calls) := by
  induction calls generalizing data stored with
  | nil => exact ⟨represents, wellFormed⟩
  | cons call calls induction =>
      obtain ⟨next, nextWellFormed⟩ := represents.apply blockHashInjective wellFormed call allowed.1
      exact induction next nextWellFormed allowed.2

end Step

/-- The store refines the list of blocks added and not removed since.  After any run of
allowed calls from a fresh store, with distinct blocks of distinct hashes, no two of those
blocks share a number or a transaction hash, and `getBlockByNumber`, `getBlockByHash`,
`getTotalDifficulty` and `getBlockByTransactionHash` answer as the first of them with the
number, the hash or the transaction asked for. -/
theorem run_refines_storedBlocks (blockHashInjective : Function.Injective chain.blockHash)
    {calls : List (Call Block TypedTransaction RpcReceiptOutput)}
    (allowed : AllowedRun chain empty calls) :
    StoredWellFormed chain (storedAfter chain [] calls) ∧
      (∀ blockNumber, (empty.run chain calls).getBlockByNumber blockNumber =
        (toNumber blockNumber).map (blockWithNumber chain (storedAfter chain [] calls))) ∧
      (∀ blockHash, (empty.run chain calls).getBlockByHash blockHash =
          blockWithHash chain (storedAfter chain [] calls) blockHash ∧
        (empty.run chain calls).getTotalDifficulty blockHash =
          totalDifficultyWithHash chain (storedAfter chain [] calls) blockHash) ∧
      ∀ transactionHash, (empty.run chain calls).getBlockByTransactionHash transactionHash =
        blockWithTransaction chain (storedAfter chain [] calls) transactionHash := by
  obtain ⟨represents, wellFormed⟩ :=
    (represents_empty chain).run blockHashInjective (storedWellFormed_nil chain) allowed
  refine ⟨wellFormed, fun blockNumber => ?_, fun blockHash => ⟨represents.byHash blockHash,
    represents.totalDifficulty blockHash⟩, represents.byTransaction⟩
  rw [getBlockByNumber, funext represents.byNumber]

/-- Blocks `a` and `bb` are added, then `a` is removed. -/
def twoBlockCalls : List (Call String String String) :=
  [.addBlock "a" 10, .addBlock "bb" 20, .removeBlock "a"]

example : storedAfter stringChain [] twoBlockCalls = [("bb", 20)] := by decide

theorem twoBlockCalls_refine_storedBlocks :
    (Function.Injective stringChain.blockHash ∧ AllowedRun stringChain empty twoBlockCalls) ∧
      StoredWellFormed stringChain (storedAfter stringChain [] twoBlockCalls) ∧
      (∀ blockNumber, (empty.run stringChain twoBlockCalls).getBlockByNumber blockNumber =
        (toNumber blockNumber).map (blockWithNumber stringChain (storedAfter stringChain [] twoBlockCalls))) ∧
      (∀ blockHash, (empty.run stringChain twoBlockCalls).getBlockByHash blockHash =
          blockWithHash stringChain (storedAfter stringChain [] twoBlockCalls) blockHash ∧
        (empty.run stringChain twoBlockCalls).getTotalDifficulty blockHash =
          totalDifficultyWithHash stringChain (storedAfter stringChain [] twoBlockCalls) blockHash) ∧
      ∀ transactionHash, (empty.run stringChain twoBlockCalls).getBlockByTransactionHash transactionHash =
        blockWithTransaction stringChain (storedAfter stringChain [] twoBlockCalls) transactionHash :=
  have allowed : AllowedRun stringChain empty twoBlockCalls :=
    ⟨⟨rfl, fun _ _ => rfl⟩, ⟨rfl, by decide⟩, rfl, trivial⟩
  ⟨⟨Function.injective_id, allowed⟩, run_refines_storedBlocks stringChain Function.injective_id allowed⟩

end BlockchainData

end Hardhat.Network
