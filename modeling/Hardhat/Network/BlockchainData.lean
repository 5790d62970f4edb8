import Mathlib.Logic.Function.Basic
import Mathlib.Data.List.Basic

namespace Hardhat.Network

/-! The in-memory block store of the Hardhat network provider
(`hardhat-network/provider/BlockchainData.ts`).

The store is generic in the `@ethereumjs` block, transaction and receipt values:
`ChainAccess` collects what the class reads of them.  A JavaScript `Map` is a
partial function, `set` is `Function.update … (some v)` and `delete` is
`Function.update … none`.  `BN` values are unbounded: block numbers are `Nat`,
the ends of an empty block range are `Int`.
-/

/-- The parts of `Block`, `TypedTransaction` and `RpcReceiptOutput` that
`BlockchainData` reads: `bufferToHex(block.hash())`, `block.header.number`,
`block.transactions`, `bufferToHex(transaction.hash())` and
`receipt.transactionHash`. -/
structure ChainAccess (Block TypedTransaction RpcReceiptOutput : Type) where
  blockHash : Block → String
  blockNumber : Block → Nat
  blockTransactions : Block → List TypedTransaction
  transactionHash : TypedTransaction → String
  receiptTransactionHash : RpcReceiptOutput → String

/-- `EmptyBlockRange` of `node-types.ts`. -/
structure EmptyBlockRange where
  first : Int
  last : Int
  intervalInSeconds : Nat
deriving DecidableEq, Repr

/-- The six maps and the list of empty block ranges of a `BlockchainData`. -/
structure BlockchainData (Block TypedTransaction RpcReceiptOutput : Type) where
  blocksByNumber : Nat → Option Block
  blocksByHash : String → Option Block
  blocksByTransactions : String → Option Block
  transactions : String → Option TypedTransaction
  transactionReceipts : String → Option RpcReceiptOutput
  totalDifficulty : String → Option Nat
  emptyBlockRanges : List EmptyBlockRange

namespace BlockchainData

variable {Block TypedTransaction RpcReceiptOutput : Type}
  (chain : ChainAccess Block TypedTransaction RpcReceiptOutput)

/-- A freshly constructed `BlockchainData`. -/
def empty : BlockchainData Block TypedTransaction RpcReceiptOutput where
  blocksByNumber := fun _ => none
  blocksByHash := fun _ => none
  blocksByTransactions := fun _ => none
  transactions := fun _ => none
  transactionReceipts := fun _ => none
  totalDifficulty := fun _ => none
  emptyBlockRanges := []

/-- `Number.MAX_SAFE_INTEGER`, `2 ^ 53 - 1`. -/
def maxSafeInteger : Nat := 9007199254740991

/-- `BN.prototype.toNumber`, which throws once the value needs more than 53 bits. -/
def toNumber (value : Nat) : Except String Nat :=
  if value ≤ maxSafeInteger then .ok value else .error "Number can only safely store up to 53 bits"

def addEmptyBlockRange (data : BlockchainData Block TypedTransaction RpcReceiptOutput)
    (r : EmptyBlockRange) : BlockchainData Block TypedTransaction RpcReceiptOutput :=
  { data with emptyBlockRanges := data.emptyBlockRanges ++ [r] }

def getBlockByNumber (data : BlockchainData Block TypedTransaction RpcReceiptOutput)
    (blockNumber : Nat) : Except String (Option Block) :=
  (toNumber blockNumber).map data.blocksByNumber

def getBlockByHash (data : BlockchainData Block TypedTransaction RpcReceiptOutput)
    (blockHash : String) : Option Block :=
  data.blocksByHash blockHash

def getBlockByTransactionHash (data : BlockchainData Block TypedTransaction RpcReceiptOutput)
    (transactionHash : String) : Option Block :=
  data.blocksByTransactions transactionHash

def getTransaction (data : BlockchainData Block TypedTransaction RpcReceiptOutput)
    (transactionHash : String) : Option TypedTransaction :=
  data.transactions transactionHash

def getTransactionReceipt (data : BlockchainData Block TypedTransaction RpcReceiptOutput)
    (transactionHash : String) : Option RpcReceiptOutput :=
  data.transactionReceipts transactionHash

def getTotalDifficulty (data : BlockchainData Block TypedTransaction RpcReceiptOutput)
    (blockHash : String) : Option Nat :=
  data.totalDifficulty blockHash

/-- The loop of `addBlock` over `block.transactions`. -/
def addBlockTransactions (block : Block) :
    List TypedTransaction → BlockchainData Block TypedTransaction RpcReceiptOutput →
      BlockchainData Block TypedTransaction RpcReceiptOutput
  | [], data => data
  | transaction :: rest, data =>
      addBlockTransactions block rest
        { data with
          transactions := Function.update data.transactions
            (chain.transactionHash transaction) (some transaction)
          blocksByTransactions := Function.update data.blocksByTransactions
            (chain.transactionHash transaction) (some block) }

def addBlock (data : BlockchainData Block TypedTransaction RpcReceiptOutput) (block : Block)
    (totalDifficulty : Nat) : Except String (BlockchainData Block TypedTransaction RpcReceiptOutput) :=
  let blockHash := chain.blockHash block
  (toNumber (chain.blockNumber block)).map fun blockNumber =>
    addBlockTransactions chain block (chain.blockTransactions block)
      { data with
        blocksByNumber := Function.update data.blocksByNumber blockNumber (some block)
        blocksByHash := Function.update data.blocksByHash blockHash (some block)
        totalDifficulty := Function.update data.totalDifficulty blockHash (some totalDifficulty) }

/-- The loop of `removeBlock` over `block.transactions`. -/
def removeBlockTransactions :
    List TypedTransaction → BlockchainData Block TypedTransaction RpcReceiptOutput →
      BlockchainData Block TypedTransaction RpcReceiptOutput
  | [], data => data
  | transaction :: rest, data =>
      removeBlockTransactions rest
        { data with
          transactions := Function.update data.transactions (chain.transactionHash transaction) none
          transactionReceipts := Function.update data.transactionReceipts
            (chain.transactionHash transaction) none
          blocksByTransactions := Function.update data.blocksByTransactions
            (chain.transactionHash transaction) none }

def removeBlock (data : BlockchainData Block TypedTransaction RpcReceiptOutput) (block : Block) :
    Except String (BlockchainData Block TypedTransaction RpcReceiptOutput) :=
  let blockHash := chain.blockHash block
  (toNumber (chain.blockNumber block)).map fun blockNumber =>
    removeBlockTransactions chain (chain.blockTransactions block)
      { data with
        blocksByNumber := Function.update data.blocksByNumber blockNumber none
        blocksByHash := Function.update data.blocksByHash blockHash none
        totalDifficulty := Function.update data.totalDifficulty blockHash none }

def addTransaction (data : BlockchainData Block TypedTransaction RpcReceiptOutput)
    (transaction : TypedTransaction) : BlockchainData Block TypedTransaction RpcReceiptOutput :=
  { data with
    transactions := Function.update data.transactions
      (chain.transactionHash transaction) (some transaction) }

def addTransactionReceipt (data : BlockchainData Block TypedTransaction RpcReceiptOutput)
    (receipt : RpcReceiptOutput) : BlockchainData Block TypedTransaction RpcReceiptOutput :=
  { data with
    transactionReceipts := Function.update data.transactionReceipts
      (chain.receiptTransactionHash receipt) (some receipt) }

section Loops

variable {chain} {block : Block} {transactions : List TypedTransaction}
  {data : BlockchainData Block TypedTransaction RpcReceiptOutput} {transactionHash : String}

@[simp] theorem addBlockTransactions_blocksByNumber :
    (addBlockTransactions chain block transactions data).blocksByNumber = data.blocksByNumber := by
  induction transactions generalizing data <;> simp [addBlockTransactions, *]

@[simp] theorem addBlockTransactions_blocksByHash :
    (addBlockTransactions chain block transactions data).blocksByHash = data.blocksByHash := by
  induction transactions generalizing data <;> simp [addBlockTransactions, *]

@[simp] theorem addBlockTransactions_totalDifficulty :
    (addBlockTransactions chain block transactions data).totalDifficulty = data.totalDifficulty := by
  induction transactions generalizing data <;> simp [addBlockTransactions, *]

@[simp] theorem addBlockTransactions_transactionReceipts :
    (addBlockTransactions chain block transactions data).transactionReceipts =
      data.transactionReceipts := by
  induction transactions generalizing data <;> simp [addBlockTransactions, *]

@[simp] theorem addBlockTransactions_emptyBlockRanges :
    (addBlockTransactions chain block transactions data).emptyBlockRanges =
      data.emptyBlockRanges := by
  induction transactions generalizing data <;> simp [addBlockTransactions, *]

theorem addBlockTransactions_blocksByTransactions :
    (addBlockTransactions chain block transactions data).blocksByTransactions transactionHash =
      if transactionHash ∈ transactions.map chain.transactionHash then some block
      else data.blocksByTransactions transactionHash := by
  induction transactions generalizing data with
  | nil => simp [addBlockTransactions]
  | cons transaction rest ih =>
      simp only [addBlockTransactions, ih, List.map_cons, List.mem_cons]
      by_cases same : transactionHash = chain.transactionHash transaction
      · subst same; split <;> simp
      · simp [same, Function.update_noteq same]

theorem addBlockTransactions_transactions_of_not_mem
    (absent : transactionHash ∉ transactions.map chain.transactionHash) :
    (addBlockTransactions chain block transactions data).transactions transactionHash =
      data.transactions transactionHash := by
  induction transactions generalizing data with
  | nil => rfl
  | cons transaction rest ih =>
      simp only [List.map_cons, List.mem_cons, not_or] at absent
      simp only [addBlockTransactions, ih absent.2, Function.update_noteq absent.1]

theorem addBlockTransactions_transactions_of_mem
    (present : transactionHash ∈ transactions.map chain.transactionHash) :
    ∃ transaction ∈ transactions, chain.transactionHash transaction = transactionHash ∧
      (addBlockTransactions chain block transactions data).transactions transactionHash =
        some transaction := by
  induction transactions generalizing data with
  | nil => simp at present
  | cons transaction rest ih =>
      by_cases later : transactionHash ∈ rest.map chain.transactionHash
      · obtain ⟨found, member, hash, stored⟩ := ih later
        exact ⟨found, List.mem_cons_of_mem _ member, hash, stored⟩
      · have first : chain.transactionHash transaction = transactionHash := by
          simp only [List.map_cons, List.mem_cons] at present
          exact (present.resolve_right later).symm
        refine ⟨transaction, List.mem_cons_self _ _, first, ?_⟩
        simp [addBlockTransactions, addBlockTransactions_transactions_of_not_mem later, first]

@[simp] theorem removeBlockTransactions_blocksByNumber :
    (removeBlockTransactions chain transactions data).blocksByNumber = data.blocksByNumber := by
  induction transactions generalizing data <;> simp [removeBlockTransactions, *]

@[simp] theorem removeBlockTransactions_blocksByHash :
    (removeBlockTransactions chain transactions data).blocksByHash = data.blocksByHash := by
  induction transactions generalizing data <;> simp [removeBlockTransactions, *]

@[simp] theorem removeBlockTransactions_totalDifficulty :
    (removeBlockTransactions chain transactions data).totalDifficulty = data.totalDifficulty := by
  induction transactions generalizing data <;> simp [removeBlockTransactions, *]

@[simp] theorem removeBlockTransactions_emptyBlockRanges :
    (removeBlockTransactions chain transactions data).emptyBlockRanges =
      data.emptyBlockRanges := by
  induction transactions generalizing data <;> simp [removeBlockTransactions, *]

/-- The loop of `removeBlock` deletes the three transaction maps at exactly the hashes of
the block's transactions. -/
theorem removeBlockTransactions_keys :
    (removeBlockTransactions chain transactions data).transactions transactionHash =
        (if transactionHash ∈ transactions.map chain.transactionHash then none
          else data.transactions transactionHash) ∧
      (removeBlockTransactions chain transactions data).transactionReceipts transactionHash =
        (if transactionHash ∈ transactions.map chain.transactionHash then none
          else data.transactionReceipts transactionHash) ∧
      (removeBlockTransactions chain transactions data).blocksByTransactions transactionHash =
        (if transactionHash ∈ transactions.map chain.transactionHash then none
          else data.blocksByTransactions transactionHash) := by
  induction transactions generalizing data with
  | nil => simp [removeBlockTransactions]
  | cons transaction rest ih =>
      simp only [removeBlockTransactions, ih, List.map_cons, List.mem_cons]
      by_cases same : transactionHash = chain.transactionHash transaction
      · subst same; refine ⟨?_, ?_, ?_⟩ <;> split <;> simp
      · simp [same, Function.update_noteq same]

end Loops

theorem addBlock_eq_ok {data : BlockchainData Block TypedTransaction RpcReceiptOutput}
    {block : Block} {totalDifficulty : Nat} (small : chain.blockNumber block ≤ maxSafeInteger) :
    data.addBlock chain block totalDifficulty = .ok (addBlockTransactions chain block
      (chain.blockTransactions block)
      { data with
        blocksByNumber := Function.update data.blocksByNumber (chain.blockNumber block) (some block)
        blocksByHash := Function.update data.blocksByHash (chain.blockHash block) (some block)
        totalDifficulty := Function.update data.totalDifficulty (chain.blockHash block)
          (some totalDifficulty) }) := by
  rw [addBlock, toNumber, if_pos small]; rfl

theorem removeBlock_eq_ok {data : BlockchainData Block TypedTransaction RpcReceiptOutput}
    {block : Block} (small : chain.blockNumber block ≤ maxSafeInteger) :
    data.removeBlock chain block = .ok (removeBlockTransactions chain
      (chain.blockTransactions block)
      { data with
        blocksByNumber := Function.update data.blocksByNumber (chain.blockNumber block) none
        blocksByHash := Function.update data.blocksByHash (chain.blockHash block) none
        totalDifficulty := Function.update data.totalDifficulty (chain.blockHash block) none }) := by
  rw [removeBlock, toNumber, if_pos small]; rfl

theorem addBlock_eq_error {data : BlockchainData Block TypedTransaction RpcReceiptOutput}
    {block : Block} {totalDifficulty : Nat} (large : ¬ chain.blockNumber block ≤ maxSafeInteger) :
    data.addBlock chain block totalDifficulty =
      .error "Number can only safely store up to 53 bits" := by
  rw [addBlock, toNumber, if_neg large]; rfl

theorem removeBlock_eq_error {data : BlockchainData Block TypedTransaction RpcReceiptOutput}
    {block : Block} (large : ¬ chain.blockNumber block ≤ maxSafeInteger) :
    data.removeBlock chain block = .error "Number can only safely store up to 53 bits" := by
  rw [removeBlock, toNumber, if_neg large]; rfl

end BlockchainData

end Hardhat.Network
