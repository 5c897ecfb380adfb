import ApiHeader.Command.Files
import ApiHeader.Command.Request
import ApiHeader.Command.Run
import ApiHeader.Decimal
import ApiHeader.Document.Basic
import ApiHeader.Document.Node
import ApiHeader.Document.Typing
import ApiHeader.Header.Basic
import ApiHeader.Header.Declaration
import ApiHeader.Header.Sections
import ApiHeader.Json.Reader
import ApiHeader.Json.Scan
import ApiHeader.Json.Value
import ApiHeader.Logged
import ApiHeader.Main
import ApiHeader.Order
import ApiHeader.Proofs.AliasChains
import ApiHeader.Proofs.AliasOrder
import ApiHeader.Proofs.Blocks
import ApiHeader.Proofs.ByteOrder
import ApiHeader.Proofs.Casing
import ApiHeader.Proofs.Checks
import ApiHeader.Proofs.Clashes
import ApiHeader.Proofs.CommandLines
import ApiHeader.Proofs.Coverage
import ApiHeader.Proofs.DeclaredFirst
import ApiHeader.Proofs.Exclusion
import ApiHeader.Proofs.FieldOrder
import ApiHeader.Proofs.Files
import ApiHeader.Proofs.Hosts
import ApiHeader.Proofs.InnerNames
import ApiHeader.Proofs.Joining
import ApiHeader.Proofs.LastValues
import ApiHeader.Proofs.Lines
import ApiHeader.Proofs.LinkLists
import ApiHeader.Proofs.Links
import ApiHeader.Proofs.Loading
import ApiHeader.Proofs.NodeOrder
import ApiHeader.Proofs.Numbering
import ApiHeader.Proofs.Parameters
import ApiHeader.Proofs.Prefixes
import ApiHeader.Proofs.Rearrangement
import ApiHeader.Proofs.RecordOrder
import ApiHeader.Proofs.Registration
import ApiHeader.Proofs.Resolution
import ApiHeader.Proofs.Respelling
import ApiHeader.Proofs.Runs
import ApiHeader.Proofs.Section
import ApiHeader.Proofs.SettingChanges
import ApiHeader.Proofs.Shadowing
import ApiHeader.Proofs.Spelling
import ApiHeader.Proofs.StableOrder
import ApiHeader.Proofs.Success
import ApiHeader.Proofs.Symbols
import ApiHeader.Proofs.TagLists
import ApiHeader.Proofs.Thinning
import ApiHeader.Proofs.TypeNames
import ApiHeader.Proofs.Uses
import ApiHeader.Proofs.Walk
import ApiHeader.Schema
import ApiHeader.Settings
import ApiHeader.Table
import ApiHeader.Text.Casing
import ApiHeader.Text.Quoted
