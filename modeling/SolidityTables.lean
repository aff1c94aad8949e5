import SolidityTables.Main
import SolidityTables.Proofs.Config.Reading
import SolidityTables.Proofs.FieldLayout
import SolidityTables.Proofs.Resource
import SolidityTables.Proofs.Scope
import SolidityTables.Proofs.Config.Definition
import SolidityTables.Proofs.Config.Acceptance
import SolidityTables.Proofs.Config.Accepted
import SolidityTables.Proofs.Config.Identity
import SolidityTables.Proofs.Library.Expression
import SolidityTables.Proofs.Library.Field
import SolidityTables.Proofs.Library.Planning
import SolidityTables.Proofs.Library.Line
import SolidityTables.Proofs.Library.Order
import SolidityTables.Proofs.Library.Source
import SolidityTables.Proofs.Disk.Files
import SolidityTables.Proofs.Disk.Run
import SolidityTables.Proofs.Config.Tables
import SolidityTables.Proofs.Library.Functions
import SolidityTables.Proofs.Library.Imports
import SolidityTables.Proofs.Config.Extension
import SolidityTables.Proofs.Library.Clashes
import SolidityTables.Proofs.CommandLine
import SolidityTables.Proofs.Library.Index
import SolidityTables.Proofs.Library.TableId
import SolidityTables.Proofs.Disk.Outputs
import SolidityTables.Proofs.Disk.Confinement
import SolidityTables.Proofs.Config.Edits
import SolidityTables.Proofs.Library.Independence
import SolidityTables.Proofs.Config.Spelling
import SolidityTables.Proofs.Config.Forms
import SolidityTables.Proofs.Config.TypeNames
import SolidityTables.Proofs.Disk.Repetition
import SolidityTables.Proofs.Library.Names
import SolidityTables.Proofs.Path.Normal
import SolidityTables.Proofs.Library.ImportPath
import SolidityTables.Proofs.Library.Relocation
import SolidityTables.Proofs.Library.Enums
import SolidityTables.Proofs.Decoding
import SolidityTables.Proofs.Library.ImportOrder
import SolidityTables.Proofs.Library.Resolution
import SolidityTables.Proofs.Library.Classification
import SolidityTables.Proofs.Library.Wrapping
import SolidityTables.Proofs.Library.Variants
import SolidityTables.Proofs.Library.Arguments
import SolidityTables.Proofs.Load
