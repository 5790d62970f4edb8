import Hardhat.Network.EmptyBlockRanges

namespace Hardhat.Network

namespace BlockchainData

variable {Block TypedTransaction RpcReceiptOutput : Type}
  (chain : ChainAccess Block TypedTransaction RpcReceiptOutput)

/-- The calls the owning blockchain makes on its `BlockchainData`. -/
inductive Call (Block TypedTransaction RpcReceiptOutput : Type)
  | addBlock (block : Block) (totalDifficulty : Nat)
  | removeBlock (block : Block)
  | addTransaction (transaction : TypedTransaction)
  | addTransactionReceipt (receipt : RpcReceiptOutput)
  | addEmptyBlockRange (range : EmptyBlockRange)
  | splitAnyEmptyBlockRangesFor (blockNumber : Int)

/-- The data after a call.  A call that throws has changed nothing: `addBlock` and
`removeBlock` throw in `toNumber`, before their first write. -/
def apply (data : BlockchainData Block TypedTransaction RpcReceiptOutput) :
    Call Block TypedTransaction RpcReceiptOutput →
      BlockchainData Block TypedTransaction RpcReceiptOutput
  | .addBlock block totalDifficulty =>
      match data.addBlock chain block totalDifficulty with
      | .ok next => next
      | .error _ => data
  | .removeBlock block =>
      match data.removeBlock chain block with
      | .ok next => next
      | .error _ => data
  | .addTransaction transaction => data.addTransaction chain transaction
  | .addTransactionReceipt receipt => data.addTransactionReceipt chain receipt
  | .addEmptyBlockRange range => data.addEmptyBlockRange range
  | .splitAnyEmptyBlockRangesFor blockNumber => data.splitAnyEmptyBlockRangesFor blockNumber |>.2

/-- The owning blockchain's discipline: it adds a block only when neither its number nor
any of its transaction hashes is indexed, and removes only a block stored under its hash. -/
def Allowed (data : BlockchainData Block TypedTransaction RpcReceiptOutput) :
    Call Block TypedTransaction RpcReceiptOutput → Prop
  | .addBlock block _ =>
      data.blocksByNumber (chain.blockNumber block) = none ∧
        ∀ transaction ∈ chain.blockTransactions block,
          data.blocksByTransactions (chain.transactionHash transaction) = none
  | .removeBlock block => data.blocksByHash (chain.blockHash block) = some block
  | _ => True

/-- The states an empty `BlockchainData` reaches by allowed calls. -/
inductive Reachable : BlockchainData Block TypedTransaction RpcReceiptOutput → Prop
  | empty : Reachable empty
  | call {data} (call : Call Block TypedTransaction RpcReceiptOutput) :
      Reachable data → Allowed chain data call → Reachable (data.apply chain call)

/-- A block is stored when `_blocksByHash` holds it under its own hash. -/
def Stores (data : BlockchainData Block TypedTransaction RpcReceiptOutput) (block : Block) : Prop :=
  data.blocksByHash (chain.blockHash block) = some block

/-- The indices agree: `_blocksByNumber`, `_blocksByHash` and the keys of `_totalDifficulty`
hold the same blocks, each under its own number and hash; `_blocksByTransactions` maps a
hash to exactly the stored block with a transaction of that hash, and `_transactions`
holds that transaction. -/
structure IndicesConsistent (data : BlockchainData Block TypedTransaction RpcReceiptOutput) :
    Prop where
  byNumber : ∀ blockNumber block, data.blocksByNumber blockNumber = some block →
    chain.blockNumber block = blockNumber ∧ data.Stores chain block
  byHash : ∀ blockHash block, data.blocksByHash blockHash = some block →
    chain.blockHash block = blockHash ∧ data.blocksByNumber (chain.blockNumber block) = some block
  totalDifficulty : ∀ blockHash,
    (data.totalDifficulty blockHash).isSome = (data.blocksByHash blockHash).isSome
  byTransaction : ∀ transactionHash block,
    data.blocksByTransactions transactionHash = some block ↔
      data.Stores chain block ∧
        transactionHash ∈ (chain.blockTransactions block).map chain.transactionHash
  transactions : ∀ transactionHash block,
    data.blocksByTransactions transactionHash = some block →
      ∃ transaction ∈ chain.blockTransactions block,
        chain.transactionHash transaction = transactionHash ∧
          data.transactions transactionHash = some transaction

theorem indicesConsistent_empty :
    IndicesConsistent chain (empty : BlockchainData Block TypedTransaction RpcReceiptOutput) where
  byNumber _ _ stored := nomatch stored
  byHash _ _ stored := nomatch stored
  totalDifficulty _ := rfl
  byTransaction _ block := by simp [empty, Stores]
  transactions _ _ stored := nomatch stored

section Addition

variable {chain} {data : BlockchainData Block TypedTransaction RpcReceiptOutput} {block : Block}
  {totalDifficulty : Nat} (small : chain.blockNumber block ≤ maxSafeInteger)
include small

/-! What an `addBlock` that does not throw leaves in each map. -/

theorem blocksByNumber_addBlock (blockNumber : Nat) :
    (data.apply chain (.addBlock block totalDifficulty)).blocksByNumber blockNumber =
      if blockNumber = chain.blockNumber block then some block else data.blocksByNumber blockNumber := by
  simp [apply, addBlock_eq_ok chain small, Function.update_apply]

theorem blocksByHash_addBlock (blockHash : String) :
    (data.apply chain (.addBlock block totalDifficulty)).blocksByHash blockHash =
      if blockHash = chain.blockHash block then some block else data.blocksByHash blockHash := by
  simp [apply, addBlock_eq_ok chain small, Function.update_apply]

theorem totalDifficulty_addBlock (blockHash : String) :
    (data.apply chain (.addBlock block totalDifficulty)).totalDifficulty blockHash =
      if blockHash = chain.blockHash block then some totalDifficulty
      else data.totalDifficulty blockHash := by
  simp [apply, addBlock_eq_ok chain small, Function.update_apply]

theorem blocksByTransactions_addBlock (transactionHash : String) :
    (data.apply chain (.addBlock block totalDifficulty)).blocksByTransactions transactionHash =
      if transactionHash ∈ (chain.blockTransactions block).map chain.transactionHash then some block
      else data.blocksByTransactions transactionHash := by
  simp only [apply, addBlock_eq_ok chain small]
  exact addBlockTransactions_blocksByTransactions

theorem transactions_addBlock_of_not_mem {transactionHash : String}
    (absent : transactionHash ∉ (chain.blockTransactions block).map chain.transactionHash) :
    (data.apply chain (.addBlock block totalDifficulty)).transactions transactionHash =
      data.transactions transactionHash := by
  simp only [apply, addBlock_eq_ok chain small]
  exact addBlockTransactions_transactions_of_not_mem absent

theorem transactions_addBlock_of_mem {transactionHash : String}
    (present : transactionHash ∈ (chain.blockTransactions block).map chain.transactionHash) :
    ∃ transaction ∈ chain.blockTransactions block, chain.transactionHash transaction = transactionHash ∧
      (data.apply chain (.addBlock block totalDifficulty)).transactions transactionHash =
        some transaction := by
  simp only [apply, addBlock_eq_ok chain small]
  exact addBlockTransactions_transactions_of_mem present

/-- After the addition, the stored blocks are the added one and those stored before. -/
theorem stores_addBlock (blockHashInjective : Function.Injective chain.blockHash) (other : Block) :
    (data.apply chain (.addBlock block totalDifficulty)).Stores chain other ↔
      other = block ∨ data.Stores chain other := by
  rw [Stores, blocksByHash_addBlock small]
  by_cases same : chain.blockHash other = chain.blockHash block
  · rw [blockHashInjective same]; simp
  · rw [if_neg same]
    exact ⟨.inr, fun stored => stored.resolve_left fun equal => same (congrArg _ equal)⟩

end Addition

section Removal

variable {chain} {data : BlockchainData Block TypedTransaction RpcReceiptOutput} {block : Block}
  (small : chain.blockNumber block ≤ maxSafeInteger)
include small

/-! What a `removeBlock` that does not throw leaves in each map. -/

theorem blocksByNumber_removeBlock (blockNumber : Nat) :
    (data.apply chain (.removeBlock block)).blocksByNumber blockNumber =
      if blockNumber = chain.blockNumber block then none else data.blocksByNumber blockNumber := by
  simp [apply, removeBlock_eq_ok chain small, Function.update_apply]

theorem blocksByHash_removeBlock (blockHash : String) :
    (data.apply chain (.removeBlock block)).blocksByHash blockHash =
      if blockHash = chain.blockHash block then none else data.blocksByHash blockHash := by
  simp [apply, removeBlock_eq_ok chain small, Function.update_apply]

theorem totalDifficulty_removeBlock (blockHash : String) :
    (data.apply chain (.removeBlock block)).totalDifficulty blockHash =
      if blockHash = chain.blockHash block then none else data.totalDifficulty blockHash := by
  simp [apply, removeBlock_eq_ok chain small, Function.update_apply]

theorem transactionKeys_removeBlock (transactionHash : String) :
    (data.apply chain (.removeBlock block)).transactions transactionHash =
        (if transactionHash ∈ (chain.blockTransactions block).map chain.transactionHash then none
          else data.transactions transactionHash) ∧
      (data.apply chain (.removeBlock block)).transactionReceipts transactionHash =
        (if transactionHash ∈ (chain.blockTransactions block).map chain.transactionHash then none
          else data.transactionReceipts transactionHash) ∧
      (data.apply chain (.removeBlock block)).blocksByTransactions transactionHash =
        (if transactionHash ∈ (chain.blockTransactions block).map chain.transactionHash then none
          else data.blocksByTransactions transactionHash) := by
  simp only [apply, removeBlock_eq_ok chain small]
  exact removeBlockTransactions_keys

/-- After the removal, the stored blocks are the other blocks stored before. -/
theorem stores_removeBlock (blockHashInjective : Function.Injective chain.blockHash)
    (other : Block) :
    (data.apply chain (.removeBlock block)).Stores chain other ↔
      other ≠ block ∧ data.Stores chain other := by
  rw [Stores, blocksByHash_removeBlock small]
  by_cases same : chain.blockHash other = chain.blockHash block
  · rw [blockHashInjective same]; simp
  · rw [if_neg same]
    exact ⟨fun storedOther => ⟨fun equal => same (congrArg _ equal), storedOther⟩, And.right⟩

end Removal

section Preservation

variable {chain} {data : BlockchainData Block TypedTransaction RpcReceiptOutput}

theorem IndicesConsistent.addBlock (blockHashInjective : Function.Injective chain.blockHash)
    (consistent : IndicesConsistent chain data)
    {block : Block} {totalDifficulty : Nat}
    (allowed : Allowed chain data (.addBlock block totalDifficulty)) :
    IndicesConsistent chain (data.apply chain (.addBlock block totalDifficulty)) := by
  by_cases small : chain.blockNumber block ≤ maxSafeInteger
  swap
  · simpa only [apply, addBlock_eq_error chain small] using consistent
  obtain ⟨numberFree, transactionsFree⟩ := allowed
  have stores : ∀ other, (data.apply chain (.addBlock block totalDifficulty)).Stores chain other ↔
      other = block ∨ data.Stores chain other :=
    stores_addBlock small blockHashInjective
  have transactionsFree' : ∀ transactionHash ∈ (chain.blockTransactions block).map
      chain.transactionHash, data.blocksByTransactions transactionHash = none := by
    simp only [List.mem_map]
    rintro _ ⟨transaction, member, rfl⟩
    exact transactionsFree transaction member
  refine ⟨fun blockNumber other stored => ?_, fun blockHash other stored => ?_,
    fun blockHash => ?_, fun transactionHash other => ?_, fun transactionHash other stored => ?_⟩
  · rw [blocksByNumber_addBlock small] at stored
    split at stored
    · rename_i same
      cases stored; exact ⟨same.symm, (stores block).mpr (.inl rfl)⟩
    · obtain ⟨numbered, stored⟩ := consistent.byNumber _ _ stored
      exact ⟨numbered, (stores other).mpr (.inr stored)⟩
  · rw [blocksByHash_addBlock small] at stored
    rw [blocksByNumber_addBlock small]
    split at stored
    · rename_i same
      cases stored; exact ⟨same.symm, by simp⟩
    · obtain ⟨hashed, numbered⟩ := consistent.byHash _ _ stored
      refine ⟨hashed, ?_⟩
      rw [if_neg fun same => by simp [← same, numbered] at numberFree]
      exact numbered
  · rw [totalDifficulty_addBlock small, blocksByHash_addBlock small]
    split
    · rfl
    · exact consistent.totalDifficulty blockHash
  · rw [blocksByTransactions_addBlock small, stores]
    split
    · rename_i inBlock
      refine ⟨fun found => ?_, fun ⟨storedOther, inOther⟩ => ?_⟩
      · cases found; exact ⟨.inl rfl, inBlock⟩
      · rcases storedOther with rfl | storedOther
        · rfl
        · have := (consistent.byTransaction _ _).mpr ⟨storedOther, inOther⟩
          simp [transactionsFree' _ inBlock] at this
    · rename_i notInBlock
      rw [consistent.byTransaction]
      exact ⟨fun ⟨stored, inOther⟩ => ⟨.inr stored, inOther⟩,
        fun ⟨stored, inOther⟩ => ⟨stored.resolve_left (by rintro rfl; exact notInBlock inOther),
          inOther⟩⟩
  · rw [blocksByTransactions_addBlock small] at stored
    split at stored
    · cases stored; exact transactions_addBlock_of_mem small ‹_›
    · rw [transactions_addBlock_of_not_mem small ‹_›]
      exact consistent.transactions _ _ stored

theorem IndicesConsistent.removeBlock (blockHashInjective : Function.Injective chain.blockHash)
    (consistent : IndicesConsistent chain data) {block : Block}
    (allowed : Allowed chain data (.removeBlock block)) :
    IndicesConsistent chain (data.apply chain (.removeBlock block)) := by
  by_cases small : chain.blockNumber block ≤ maxSafeInteger
  swap
  · simpa only [apply, removeBlock_eq_error chain small] using consistent
  have stored : data.Stores chain block := allowed
  have numbered := (consistent.byHash _ _ stored).2
  have stores : ∀ other, (data.apply chain (.removeBlock block)).Stores chain other ↔
      other ≠ block ∧ data.Stores chain other :=
    stores_removeBlock small blockHashInjective
  refine ⟨fun blockNumber other found => ?_, fun blockHash other found => ?_,
    fun blockHash => ?_, fun transactionHash other => ?_, fun transactionHash other found => ?_⟩
  · rw [blocksByNumber_removeBlock small] at found
    split at found
    · cases found
    rename_i otherNumber
    obtain ⟨numberedOther, storedOther⟩ := consistent.byNumber _ _ found
    refine ⟨numberedOther, (stores other).mpr ⟨?_, storedOther⟩⟩
    rintro rfl
    exact otherNumber numberedOther.symm
  · rw [blocksByHash_removeBlock small] at found
    split at found
    · cases found
    rename_i otherHash
    obtain ⟨hashed, numberedOther⟩ := consistent.byHash _ _ found
    refine ⟨hashed, ?_⟩
    rw [blocksByNumber_removeBlock small, if_neg fun sameNumber => ?_]
    · exact numberedOther
    rw [sameNumber, numbered] at numberedOther
    cases numberedOther
    exact otherHash hashed.symm
  · rw [totalDifficulty_removeBlock small, blocksByHash_removeBlock small]
    split
    · rfl
    · exact consistent.totalDifficulty blockHash
  · rw [(transactionKeys_removeBlock small _).2.2, stores]
    split
    · rename_i inBlock
      refine ⟨(fun found => nomatch found), fun ⟨⟨different, storedOther⟩, inOther⟩ => ?_⟩
      have first := (consistent.byTransaction _ _).mpr ⟨storedOther, inOther⟩
      rw [(consistent.byTransaction _ _).mpr ⟨stored, inBlock⟩] at first
      cases first
      exact absurd rfl different
    · rename_i notInBlock
      rw [consistent.byTransaction]
      exact ⟨fun ⟨storedOther, inOther⟩ =>
          ⟨⟨by rintro rfl; exact notInBlock inOther, storedOther⟩, inOther⟩,
        fun ⟨⟨_, storedOther⟩, inOther⟩ => ⟨storedOther, inOther⟩⟩
  · rw [(transactionKeys_removeBlock small _).2.2] at found
    split at found
    · cases found
    rw [(transactionKeys_removeBlock small _).1, if_neg ‹_›]
    exact consistent.transactions _ _ found

theorem IndicesConsistent.addTransaction
    (transactionHashInjective : Function.Injective chain.transactionHash)
    (consistent : IndicesConsistent chain data) (transaction : TypedTransaction) :
    IndicesConsistent chain (data.apply chain (.addTransaction transaction)) := by
  refine ⟨consistent.byNumber, consistent.byHash, consistent.totalDifficulty,
    consistent.byTransaction, fun transactionHash other found => ?_⟩
  obtain ⟨indexed, member, hashed, held⟩ := consistent.transactions _ _ found
  refine ⟨indexed, member, hashed, ?_⟩
  simp only [apply, BlockchainData.addTransaction, Function.update_apply]
  split
  · rename_i same
    rw [transactionHashInjective (hashed.trans same)]
  · exact held

/-- The invariant reads only the five maps it names. -/
theorem IndicesConsistent.congr {other : BlockchainData Block TypedTransaction RpcReceiptOutput}
    (consistent : IndicesConsistent chain data)
    (sameNumbers : other.blocksByNumber = data.blocksByNumber)
    (sameHashes : other.blocksByHash = data.blocksByHash)
    (sameDifficulties : other.totalDifficulty = data.totalDifficulty)
    (sameBlocksByTransactions : other.blocksByTransactions = data.blocksByTransactions)
    (sameTransactions : other.transactions = data.transactions) :
    IndicesConsistent chain other := by
  have sameStores : other.Stores chain = data.Stores chain := by
    funext block; simp only [Stores, sameHashes]
  obtain ⟨byNumber, byHash, totalDifficulty, byTransaction, transactions⟩ := consistent
  refine ⟨?_, ?_, ?_, ?_, ?_⟩ <;>
    simp only [sameNumbers, sameHashes, sameDifficulties, sameBlocksByTransactions,
      sameTransactions, sameStores] <;> assumption

theorem IndicesConsistent.apply (blockHashInjective : Function.Injective chain.blockHash)
    (transactionHashInjective : Function.Injective chain.transactionHash)
    (consistent : IndicesConsistent chain data) (call : Call Block TypedTransaction RpcReceiptOutput)
    (allowed : Allowed chain data call) : IndicesConsistent chain (data.apply chain call) := by
  cases call with
  | addBlock => exact consistent.addBlock blockHashInjective allowed
  | removeBlock => exact consistent.removeBlock blockHashInjective allowed
  | addTransaction transaction => exact consistent.addTransaction transactionHashInjective transaction
  | addTransactionReceipt => exact consistent.congr rfl rfl rfl rfl rfl
  | addEmptyBlockRange => exact consistent.congr rfl rfl rfl rfl rfl
  | splitAnyEmptyBlockRangesFor blockNumber =>
      obtain ⟨_, split⟩ := data.splitAnyEmptyBlockRangesFor_snd blockNumber
      simp only [BlockchainData.apply, split]
      exact consistent.congr rfl rfl rfl rfl rfl

end Preservation

/-- In every state an empty `BlockchainData` reaches under the owning chain's discipline,
with injective block and transaction hashing, the indices agree. -/
theorem indicesConsistent_of_reachable (blockHashInjective : Function.Injective chain.blockHash)
    (transactionHashInjective : Function.Injective chain.transactionHash)
    {data : BlockchainData Block TypedTransaction RpcReceiptOutput} (reachable : Reachable chain data) :
    IndicesConsistent chain data := by
  induction reachable with
  | empty => exact indicesConsistent_empty chain
  | call call _ allowed consistent =>
      exact consistent.apply blockHashInjective transactionHashInjective call allowed

/-- A chain whose blocks are their own hashes: a block's number is the length of its name,
and its one transaction is named after it. -/
def namedChain : ChainAccess String String String :=
  ⟨id, String.length, fun block => [block ++ "-tx"], id, id⟩

/-- Blocks `a` and `bb` added, a receipt for the transaction of `a`, and `a` removed. -/
def receiptThenRemoval : BlockchainData String String String :=
  ((((empty.apply namedChain (.addBlock "a" 1)).apply namedChain (.addBlock "bb" 2)).apply namedChain
    (.addTransactionReceipt "a-tx")).apply namedChain (.removeBlock "a"))

theorem indicesConsistent_of_reachable_by_identity_hashes :
    (Function.Injective namedChain.blockHash ∧ Function.Injective namedChain.transactionHash ∧
      Reachable namedChain receiptThenRemoval) ∧ IndicesConsistent namedChain receiptThenRemoval :=
  have reachable : Reachable namedChain receiptThenRemoval :=
    .call (.removeBlock "a") (.call (.addTransactionReceipt "a-tx")
      (.call (.addBlock "bb" 2) (.call (.addBlock "a" 1) .empty ⟨rfl, fun _ _ => rfl⟩)
        ⟨by decide, by decide⟩) trivial) (by unfold Allowed; decide)
  ⟨⟨Function.injective_id, Function.injective_id, reachable⟩,
    indicesConsistent_of_reachable _ Function.injective_id Function.injective_id reachable⟩

end BlockchainData

end Hardhat.Network
