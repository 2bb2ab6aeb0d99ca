import JokerScript.Code.Condition
import JokerScript.Code.Effect
import JokerScript.Code.Effect.Basic
import JokerScript.Code.Effect.BlindChange
import JokerScript.Code.Effect.ConsumableRemoval
import JokerScript.Code.Effect.HandChange
import JokerScript.Code.Effect.Held
import JokerScript.Code.Effect.JokerCreation
import JokerScript.Code.Joker
import JokerScript.Code.Mod
import JokerScript.Code.Rule
import JokerScript.Code.Setting
import JokerScript.Config
import JokerScript.Draft.Basic
import JokerScript.Draft.Json
import JokerScript.Draft.Params
import JokerScript.Draft.Validate
import JokerScript.Error
import JokerScript.Hook.Category
import JokerScript.Hook.Cost
import JokerScript.Hook.Ledger
import JokerScript.Hook.Patch
import JokerScript.Hook.Request
import JokerScript.Hook.SuitCheck
import JokerScript.Identity
import JokerScript.Joker.Basic
import JokerScript.Joker.Condition
import JokerScript.Joker.Consumable
import JokerScript.Joker.Effect
import JokerScript.Joker.Json
import JokerScript.Joker.Quantity
import JokerScript.Joker.Suit
import JokerScript.Json.Basic
import JokerScript.Json.Decode
import JokerScript.Json.Print
import JokerScript.Json.Read
import JokerScript.Lua.Identifier
import JokerScript.Lua.Render
import JokerScript.Lua.Syntax
import JokerScript.Number.Basic
import JokerScript.Number.Rounding
import JokerScript.Number.Shortest
import JokerScript.Number.Text
import JokerScript.Proofs.Compile.Append
import JokerScript.Proofs.Compile.Drafts
import JokerScript.Proofs.Compile.DrawnOnce
import JokerScript.Proofs.Compile.Draws
import JokerScript.Proofs.Compile.FailedRules
import JokerScript.Proofs.Compile.Hooks
import JokerScript.Proofs.Compile.Indentation
import JokerScript.Proofs.Compile.Jokers
import JokerScript.Proofs.Compile.Messages
import JokerScript.Proofs.Compile.Outcome
import JokerScript.Proofs.Compile.Reports
import JokerScript.Proofs.Compile.Rules
import JokerScript.Proofs.Compile.Scoped
import JokerScript.Proofs.Compile.Stored
import JokerScript.Proofs.Compile.Turns
import JokerScript.Proofs.Compile.Variables
import JokerScript.Proofs.Condition.Code
import JokerScript.Proofs.Condition.Draws
import JokerScript.Proofs.Condition.Loops
import JokerScript.Proofs.Condition.Meaning
import JokerScript.Proofs.Condition.Rule
import JokerScript.Proofs.Condition.Scoped
import JokerScript.Proofs.Condition.Turns
import JokerScript.Proofs.Creation.Announced
import JokerScript.Proofs.Creation.Blocks
import JokerScript.Proofs.Creation.Evaluation
import JokerScript.Proofs.Creation.Interleaving
import JokerScript.Proofs.Creation.Slots
import JokerScript.Proofs.Draft.Amounts
import JokerScript.Proofs.Draft.Conformance
import JokerScript.Proofs.Draft.Grammar
import JokerScript.Proofs.Draft.Parameters
import JokerScript.Proofs.Draft.Quantities
import JokerScript.Proofs.Draft.Values
import JokerScript.Proofs.Effect.Bound
import JokerScript.Proofs.Effect.DrawnOnce
import JokerScript.Proofs.Effect.Draws
import JokerScript.Proofs.Effect.Locals
import JokerScript.Proofs.Effect.Outcome
import JokerScript.Proofs.Effect.Scoped
import JokerScript.Proofs.Effect.StatusText
import JokerScript.Proofs.Effect.Written
import JokerScript.Proofs.Held.Blocks
import JokerScript.Proofs.Held.Compiled
import JokerScript.Proofs.Held.Playable
import JokerScript.Proofs.Held.Runs
import JokerScript.Proofs.Held.Slots
import JokerScript.Proofs.Hook.Discounts
import JokerScript.Proofs.Hook.Ledger
import JokerScript.Proofs.Hook.Prices
import JokerScript.Proofs.Hook.Replaced
import JokerScript.Proofs.Hook.Scoped
import JokerScript.Proofs.Hook.Submissions
import JokerScript.Proofs.Hook.SuitPairs
import JokerScript.Proofs.Joker.RoundTrip
import JokerScript.Proofs.Json.Arranged
import JokerScript.Proofs.Json.Numeral
import JokerScript.Proofs.Json.Text
import JokerScript.Proofs.Lua.Breaks
import JokerScript.Proofs.Lua.Calls
import JokerScript.Proofs.Lua.Draws
import JokerScript.Proofs.Lua.Frame
import JokerScript.Proofs.Lua.Joined
import JokerScript.Proofs.Lua.Laws
import JokerScript.Proofs.Lua.Lines
import JokerScript.Proofs.Lua.Locals
import JokerScript.Proofs.Lua.LoopDraws
import JokerScript.Proofs.Lua.Numbers
import JokerScript.Proofs.Lua.Reader
import JokerScript.Proofs.Lua.Renamed
import JokerScript.Proofs.Lua.RoundTrip
import JokerScript.Proofs.Lua.Run
import JokerScript.Proofs.Lua.Scope
import JokerScript.Proofs.Lua.ShortString
import JokerScript.Proofs.Lua.Spelling
import JokerScript.Proofs.Lua.State
import JokerScript.Proofs.Lua.Token
import JokerScript.Proofs.Lua.Uses
import JokerScript.Proofs.Lua.Value
import JokerScript.Proofs.Number.Distance
import JokerScript.Proofs.Number.Nearest
import JokerScript.Proofs.Number.ReadBack
import JokerScript.Proofs.Number.Written
import JokerScript.Proofs.Removal.Collected
import JokerScript.Proofs.Removal.Destroyed
import JokerScript.Proofs.Resolve.Descriptors
import JokerScript.Proofs.Resolve.Draws
import JokerScript.Proofs.Resolve.Finite
import JokerScript.Proofs.Resolve.Meaning
import JokerScript.Proofs.Resolve.Policies
import JokerScript.Proofs.Resolve.Scoped
import JokerScript.Proofs.Resolve.Settled
import JokerScript.Proofs.Resolve.Vocabulary
import JokerScript.Proofs.Resolve.Worth
import JokerScript.Proofs.Storage.Adopted
import JokerScript.Proofs.Storage.Names
import JokerScript.Proofs.Storage.Runs
import JokerScript.Proofs.Storage.Search
import JokerScript.Proofs.Storage.Served
import JokerScript.Proofs.Success
import JokerScript.Proofs.Text.Blank
import JokerScript.Proofs.Triggered.Alike
import JokerScript.Proofs.Triggered.Amounts
import JokerScript.Proofs.Triggered.Changes
import JokerScript.Proofs.Triggered.Compiled
import JokerScript.Proofs.Triggered.Counters
import JokerScript.Proofs.Triggered.Game
import JokerScript.Proofs.Triggered.Messages
import JokerScript.Proofs.Triggered.Quiet
import JokerScript.Proofs.Triggered.Recorder
import JokerScript.Proofs.Triggered.Shapes
import JokerScript.Rendered.Basic
import JokerScript.Rendered.Json
import JokerScript.Resolve.Basic
import JokerScript.Resolve.GameState
import JokerScript.Resolve.Source
import JokerScript.Resolve.Storage
import JokerScript.Resolve.SuitReading
import JokerScript.Tag
import JokerScript.Text.Blank
import JokerScript.Text.Pieces
import JokerScript.Trigger
