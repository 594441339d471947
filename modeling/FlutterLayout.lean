import FlutterLayout.Main
import FlutterLayout.Proofs.Pipe.Completeness
import FlutterLayout.Proofs.Pipe.VariableNames
import FlutterLayout.Proofs.Markup.Printing
import FlutterLayout.Proofs.Layout.AskedContent
import FlutterLayout.Proofs.Layout.ListPositions
import FlutterLayout.Proofs.Dart.Suffixes
import FlutterLayout.Proofs.Directive.LoopHeaders
import FlutterLayout.Proofs.Dart.Balance
import FlutterLayout.Proofs.Dart.Indentation
import FlutterLayout.Proofs.Command.Watching
import FlutterLayout.Proofs.Command.Emissions
import FlutterLayout.Proofs.Pipe.BracketBalance
import FlutterLayout.Proofs.Markup.KeptNodes
